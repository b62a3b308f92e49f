import PredictionIndexer.Spec.RiskLatch
import PredictionIndexer.Spec.RiskReplay

/-!
# What a group tells about its books

A cut speaks about a book three times: the transition's decision, the new view, and the
dispositions of the book's market events. The three agree. Inside a group the work staged for a
book keeps step with the events marked as applied so far (`Work.Tells`), one stimulus at a time;
a failure drops what was staged, and the dispositions are corrected when the group is committed.

Latched work is final, so its reason is the one of the first stimulus that latches
(`firstCause`). Duplicates reach no book.

## Key results

- `act_tells`: one stimulus keeps the work in step with the events applied so far
- `bookRun_firstCause`: a book with a latching cause ends with the reason of the first one
- `group_decisions`: the transitions of a group, its dispositions and its duplicates
-/

namespace PredictionIndexer.Engine

open Fallible

/-! ## Applied events -/

/-- The book event of a key, if the record marks it as applied. -/
def MarketRecord.appliedTo (k : BookKey) (r : MarketRecord) : Option BookEvent :=
  match r.event with
  | .book b => if r.disposition = .applied ∧ b.bookKey = k then some b else none
  | .trade _ => none

/-- The book events of a key that are marked as applied, in order. -/
def appliedEvents (k : BookKey) (events : List MarketRecord) : List BookEvent :=
  events.filterMap (MarketRecord.appliedTo k)

theorem appliedEvents_append (k : BookKey) (xs ys : List MarketRecord) :
    appliedEvents k (xs ++ ys) = appliedEvents k xs ++ appliedEvents k ys :=
  List.filterMap_append

/-- What a stimulus adds to the applied events of its book, once it led to `s`. -/
def Stimulus.applied (view : BookView) (s : BookState) : Stimulus → List BookEvent
  | .source _ _ => []
  | .invalidate _ _ => []
  | .book b _ _ => if (s.work view).view.validity = .usable then [b] else []

/-- A Full, and the operations applied to its ladder since. -/
structure FullThen (plan : BookPlan) (applied : List BookEvent) (ladder : Ladder) : Prop where
  exists_full : ∃ pre full post bids asks, applied = pre ++ .full full :: post.map .delta ∧
    fullSide plan full.bids = .ok bids ∧ fullSide plan full.asks = .ok asks ∧
    Ladder.replay ⟨bids, asks⟩ post = .ok ladder

/-- The work of a book is in step with the events applied to the book in this group. -/
structure Work.Tells (plan : BookPlan) (w : Work) (applied : List BookEvent) : Prop where
  latched : w.latched = true → w.view.validity ≠ .usable
  operations : w.view.validity = .usable → w.full = false → applied = w.operations.map .delta
  snapshot : w.view.validity = .usable → w.full = true →
    ∃ ladder, w.view.ladder = some ladder ∧ FullThen plan applied ladder

/-- The same of the whole state of a book: without staged work nothing was applied. -/
structure BookState.Tells (plan : BookPlan) (view : BookView) (s : BookState)
    (applied : List BookEvent) : Prop where
  work : (s.work view).Tells plan applied
  unstaged : s.staged = none → applied = []

section Tells

variable {e : RiskEngine} {plan : BookPlan} {view : BookView} {w w' : Work} {s s' : BookState}
  {applied : List BookEvent}

theorem Work.Tells.new (view : BookView) : (Work.new view).Tells plan [] where
  latched := by simp [Work.new]
  operations := by simp [Work.new]
  snapshot := by simp [Work.new]

/-- Failed work is out of use, latched or not. -/
theorem Work.Tells.fail_not_usable (h : w.Tells plan applied) (reason : Reason) (latch : Bool) :
    (w.fail reason latch).view.validity ≠ .usable := by
  unfold Work.fail
  cases hl : w.latched with
  | true => exact h.latched hl
  | false => simp

/-- Work that is out of use owes nothing to the events before it. -/
theorem Work.Tells.of_not_usable (h : w.view.validity ≠ .usable) : w.Tells plan applied where
  latched := fun _ => h
  operations := fun hv => absurd hv h
  snapshot := fun hv => absurd hv h

theorem Work.Tells.fail (h : w.Tells plan applied) (reason : Reason) (latch : Bool) :
    (w.fail reason latch).Tells plan applied :=
  .of_not_usable (h.fail_not_usable reason latch)

/-- A delta extends the operations of work without a Full, or the replay over its Full. -/
theorem Work.Tells.delta (h : w.Tells plan applied) (hl : w.latched = false) {delta : BookDelta}
    {reference : Reference} {v : BookView}
    (happly : applyDelta w.view plan delta reference = .ok (.ok v)) :
    (w.applied (.delta delta) v).Tells plan (applied ++ [.delta delta]) := by
  obtain ⟨hv, -, ladder, dependency, new, hladder, -, hnew, rfl⟩ := applyDelta_eq_ok happly
  constructor
  case latched =>
    intro hlatched
    rw [show (w.applied (.delta delta) _).latched = w.latched from rfl, hl] at hlatched
    cases hlatched
  case operations =>
    intro _ hfull
    rw [h.operations hv hfull]
    simp [Work.applied]
  case snapshot =>
    intro _ hfull
    obtain ⟨l, hl, ⟨pre, full, post, bids, asks, happlied, hbids, hasks, hreplay⟩⟩ :=
      h.snapshot hv hfull
    rw [hladder] at hl
    obtain rfl := Option.some.inj hl
    refine ⟨_, rfl, ⟨pre, full, post ++ [delta], bids, asks, ?_, hbids, hasks, ?_⟩⟩
    · simp [happlied]
    · refine Ladder.replay_append_singleton hreplay ?_
      rw [Ladder.step, hnew]
      rfl

/-- A Full starts the replay afresh. -/
theorem Work.Tells.full (hl : w.latched = false) {full : FullBook} {reference : Reference}
    {epoch : String} {v : BookView}
    (happly : applyFull w.view plan full reference epoch = .ok v) :
    (w.applied (.full full) v).Tells plan (applied ++ [.full full]) := by
  obtain ⟨bids, asks, hbids, hasks, rfl⟩ := applyFull_eq_ok happly
  constructor
  case latched =>
    intro hlatched
    rw [show (w.applied (.full full) _).latched = w.latched from rfl, hl] at hlatched
    cases hlatched
  case operations =>
    intro _ hfull
    cases hfull
  case snapshot =>
    intro _ _
    exact ⟨_, rfl, ⟨applied, full, [], bids, asks, by simp, hbids, hasks, rfl⟩⟩

/-- An event that was applied leaves its book in use. -/
theorem apply_usable {v v' : BookView} {b : BookEvent} {reference : Reference} {epoch : String}
    (h : apply v plan b reference epoch = .ok (.ok v')) : v'.validity = .usable := by
  cases b with
  | full full =>
    obtain ⟨_, _, _, _, rfl⟩ := applyFull_eq_ok (Except.ok.inj h)
    rfl
  | delta delta =>
    obtain ⟨hv, _, _, _, _, _, _, _, rfl⟩ := applyDelta_eq_ok h
    exact hv

theorem Work.applied_view (w : Work) (b : BookEvent) (v : BookView) : (w.applied b v).view = v := by
  cases b <;> rfl

/-- A book event keeps the work in step: it is marked as applied exactly when it was. -/
theorem Work.Tells.bookWork (h : w.Tells plan applied) {lane : LaneId} {b : BookEvent}
    {reference : Reference} {epoch : String}
    (hw : e.bookWork plan lane b reference epoch w = .ok w') :
    w'.Tells plan (applied ++ if w'.view.validity = .usable then [b] else []) := by
  rcases RiskEngine.bookWork_cases hw with ⟨hl, rfl⟩ | ⟨-, reason, rfl, -⟩ | ⟨hl, -, v, happly, rfl⟩
  · rw [if_neg (h.latched hl), List.append_nil]
    exact h
  · rw [if_neg (h.fail_not_usable reason true), List.append_nil]
    exact h.fail reason true
  · rw [Work.applied_view, if_pos (apply_usable happly)]
    cases b with
    | full full => exact Work.Tells.full hl (Except.ok.inj happly)
    | delta delta => exact h.delta hl happly

/-- One stimulus keeps the state of a book in step with the events applied so far. -/
theorem act_tells {stimulus : Stimulus} (h : s.Tells plan view applied)
    (hact : stimulus.act e plan view s = .ok s') :
    s'.Tells plan view (applied ++ stimulus.applied view s') := by
  have hfail : ∀ (t : BookState) (reason : Reason) (latch : Bool), t.Tells plan view applied →
      (t.fail view reason latch).Tells plan view applied := by
    intro t reason latch ht
    exact ⟨ht.work.fail reason latch, fun hnone => nomatch hnone⟩
  cases stimulus with
  | source verdict epoch =>
    obtain rfl := Except.ok.inj hact
    rw [Stimulus.applied, List.append_nil]
    -- the epoch is no part of what is told
    have h₁ : (if s.epoch.any (· ≠ epoch) then s.fail view .epochChanged false else s).Tells
        plan view applied := by
      split
      · exact hfail s _ _ h
      · exact h
    have h₂ : (if verdict.broken then
        (if s.epoch.any (· ≠ epoch) then s.fail view .epochChanged false else s).fail view
          (.continuity verdict) true
        else if s.epoch.any (· ≠ epoch) then s.fail view .epochChanged false else s).Tells
        plan view applied := by
      split
      · exact hfail _ _ _ h₁
      · exact h₁
    exact ⟨h₂.work, h₂.unstaged⟩
  | invalidate reason latch =>
    obtain rfl := Except.ok.inj hact
    rw [Stimulus.applied, List.append_nil]
    exact hfail s reason latch h
  | book b reference epoch =>
    obtain ⟨w, hw, hact⟩ := Except.bind_eq_ok.mp hact
    obtain rfl := Except.ok.inj hact
    exact ⟨h.work.bookWork hw, fun hnone => nomatch hnone⟩

end Tells

/-! ## The first latching cause -/

/-- Why a stimulus latches the work of a book that is not latched yet, if it does. -/
def Stimulus.cause (e : RiskEngine) (plan : BookPlan) (view : BookView) (s : BookState) :
    Stimulus → Option Reason
  | .source verdict _ => if verdict.broken then some (.continuity verdict) else none
  | .invalidate reason latch => if latch then some reason else none
  | .book b reference epoch =>
    match e.blocked[plan.lane]? with
    | some reason => some reason
    | none =>
      match apply (s.work view).view plan b reference epoch with
      | .ok (.error reason) => some reason
      | _ => none

/-- The reason of the first stimulus that latches. -/
def firstCause (e : RiskEngine) (plan : BookPlan) (view : BookView) :
    List Stimulus → BookState → Option Reason
  | [], _ => none
  | stimulus :: stimuli, s =>
    match stimulus.cause e plan view s with
    | some reason => some reason
    | none =>
      match stimulus.act e plan view s with
      | .ok s' => firstCause e plan view stimuli s'
      | .error _ => none

section Cause

variable {e : RiskEngine} {plan : BookPlan} {view : BookView} {s s' : BookState}
  {stimulus : Stimulus} {stimuli : List Stimulus} {reason : Reason}

/-- Failing latched work changes nothing. -/
theorem BookState.work_fail_of_latched (h : (s.work view).latched = true) (reason : Reason)
    (latch : Bool) : (s.fail view reason latch).work view = s.work view := by
  show (s.work view).fail reason latch = s.work view
  simp [Work.fail, h]

/-- Nothing changes latched work. -/
theorem act_work_of_latched (h : (s.work view).latched = true)
    (hact : stimulus.act e plan view s = .ok s') : s'.work view = s.work view := by
  cases stimulus with
  | source verdict epoch =>
    obtain rfl := Except.ok.inj hact
    have h₁ : (if s.epoch.any (· ≠ epoch) then s.fail view .epochChanged false else s).work view =
        s.work view := by
      split
      · exact BookState.work_fail_of_latched h _ _
      · rfl
    show (if verdict.broken = true then _ else _ : BookState).work view = s.work view
    split
    · rw [BookState.work_fail_of_latched (by rw [h₁]; exact h), h₁]
    · exact h₁
  | invalidate reason latch =>
    obtain rfl := Except.ok.inj hact
    exact BookState.work_fail_of_latched h reason latch
  | book b reference epoch =>
    obtain ⟨w, hw, hact⟩ := Except.bind_eq_ok.mp hact
    obtain rfl := Except.ok.inj hact
    rcases RiskEngine.bookWork_cases hw with ⟨-, rfl⟩ | ⟨hl, -⟩ | ⟨hl, -⟩
    · rfl
    · rw [h] at hl
      cases hl
    · rw [h] at hl
      cases hl

/-- A cause latches the work with its reason. -/
theorem act_of_cause (h : (s.work view).latched = false)
    (hcause : stimulus.cause e plan view s = some reason)
    (hact : stimulus.act e plan view s = .ok s') :
    (s'.work view).latched = true ∧ (s'.work view).view.validity = .unusable reason := by
  -- failing work that is not latched
  have hfail : ∀ (t : BookState), (t.work view).latched = false →
      ((t.fail view reason true).work view).latched = true ∧
        ((t.fail view reason true).work view).view.validity = .unusable reason := by
    intro t ht
    show ((t.work view).fail reason true).latched = true ∧
      ((t.work view).fail reason true).view.validity = .unusable reason
    simp [Work.fail, ht]
  cases stimulus with
  | source verdict epoch =>
    obtain rfl := Except.ok.inj hact
    simp only [Stimulus.cause] at hcause
    split at hcause
    · rename_i hbroken
      obtain rfl := Option.some.inj hcause
      have h₁ : ((if s.epoch.any (· ≠ epoch) then s.fail view .epochChanged false
          else s).work view).latched = false := by
        split
        · show ((s.work view).fail .epochChanged false).latched = false
          simp [Work.fail, h]
        · exact h
      simp only [hbroken, if_true]
      exact hfail _ h₁
    · cases hcause
  | invalidate reason' latch =>
    obtain rfl := Except.ok.inj hact
    simp only [Stimulus.cause] at hcause
    split at hcause
    · rename_i hlatch
      obtain rfl := Option.some.inj hcause
      rw [hlatch]
      exact hfail s h
    · cases hcause
  | book b reference epoch =>
    obtain ⟨w, hw, hact⟩ := Except.bind_eq_ok.mp hact
    obtain rfl := Except.ok.inj hact
    show w.latched = true ∧ w.view.validity = .unusable reason
    simp only [Stimulus.cause] at hcause
    rcases RiskEngine.bookWork_cases hw with ⟨hl, -⟩ | ⟨hl, r, rfl, hb | ⟨hb, hr⟩⟩ |
      ⟨-, hb, v, hv, -⟩
    · rw [h] at hl
      cases hl
    · simp only [hb] at hcause
      obtain rfl := Option.some.inj hcause
      simp [Work.fail, hl]
    · simp only [hb, hr] at hcause
      obtain rfl := Option.some.inj hcause
      simp [Work.fail, hl]
    · simp only [hb, hv] at hcause
      cases hcause

/-- Without a cause the work does not latch. -/
theorem act_of_no_cause (h : (s.work view).latched = false)
    (hcause : stimulus.cause e plan view s = none)
    (hact : stimulus.act e plan view s = .ok s') : (s'.work view).latched = false := by
  have hfail : ∀ (t : BookState) (reason : Reason), (t.work view).latched = false →
      ((t.fail view reason false).work view).latched = false := by
    intro t reason ht
    show ((t.work view).fail reason false).latched = false
    simp [Work.fail, ht]
  cases stimulus with
  | source verdict epoch =>
    obtain rfl := Except.ok.inj hact
    simp only [Stimulus.cause] at hcause
    split at hcause
    · cases hcause
    · rename_i hbroken
      simp only [hbroken]
      show ((if s.epoch.any (· ≠ epoch) then s.fail view .epochChanged false
        else s).work view).latched = false
      split
      · exact hfail s _ h
      · exact h
  | invalidate reason latch =>
    obtain rfl := Except.ok.inj hact
    simp only [Stimulus.cause] at hcause
    split at hcause
    · cases hcause
    · rename_i hlatch
      rw [Bool.not_eq_true] at hlatch
      rw [hlatch]
      exact hfail s reason h
  | book b reference epoch =>
    obtain ⟨w, hw, hact⟩ := Except.bind_eq_ok.mp hact
    obtain rfl := Except.ok.inj hact
    show w.latched = false
    simp only [Stimulus.cause] at hcause
    rcases RiskEngine.bookWork_cases hw with ⟨hl, -⟩ | ⟨-, r, -, hb | ⟨hb, hr⟩⟩ |
      ⟨hl, -, v, -, rfl⟩
    · rw [h] at hl
      cases hl
    · simp only [hb] at hcause
      cases hcause
    · simp only [hb, hr] at hcause
      cases hcause
    · cases b <;> exact hl

/-- A run ends with the reason of its first latching cause. -/
theorem bookRun_firstCause (h : (s.work view).latched = false)
    (hcause : firstCause e plan view stimuli s = some reason)
    (hrun : bookRun e plan view stimuli s = .ok s') :
    (s'.work view).latched = true ∧ (s'.work view).view.validity = .unusable reason := by
  induction stimuli generalizing s with
  | nil => cases hcause
  | cons stimulus stimuli ih =>
    obtain ⟨t, hact, hrun⟩ := List.foldlM_cons_eq_ok.mp hrun
    unfold firstCause at hcause
    cases hfirst : stimulus.cause e plan view s with
    | some first =>
      rw [hfirst] at hcause
      obtain rfl := Option.some.inj hcause
      -- from here on the work stays as it is
      have hlatched := act_of_cause h hfirst hact
      refine List.foldlM_inv (fun t => (t.work view).latched = true ∧
        (t.work view).view.validity = .unusable first) hrun hlatched ?_
      rintro t st t' - ⟨hl, hv⟩ hstep
      rw [act_work_of_latched hl hstep]
      exact ⟨hl, hv⟩
    | none =>
      rw [hfirst, hact] at hcause
      exact ih (act_of_no_cause h hfirst hact) hcause hrun

end Cause

/-! ## The group loop -/

/-- The group without its deliveries of duplicates, over the same source span. -/
def AtomicGroup.withoutDuplicates (g : AtomicGroup) : AtomicGroup :=
  { g with deliveries := g.deliveries.filter (!·.duplicate) }

/-- The events that a cut lists. -/
def SegmentEvent.isMarket : SegmentEvent → Bool
  | .book _ => true
  | .trade _ => true
  | _ => false

/-- The market events of a group, each with the delivery and the record it comes from. -/
def FilteredDelivery.marketSources (d : FilteredDelivery) :
    List (FilteredDelivery × SegmentRecord) :=
  (d.records.filter (·.event.isMarket)).map (d, ·)

namespace RiskEngine

variable {e e' : RiskEngine} {k : BookKey} {plan : BookPlan} {view : BookView}

/-- Whether a record is on the authority lane of its book, and the book in use after it. -/
def TakenBy (e : RiskEngine) (lane : LaneId) (b : BookEvent) (s : GroupState) : Prop :=
  ∃ plan w, e.plans[b.bookKey]? = some plan ∧ plan.lane = lane ∧
    s.staged[b.bookKey]? = some w ∧ w.view.validity = .usable

/-- The last event of the loop's list is the book event's own, and is marked as applied when the
    book took it. -/
theorem bookEvent_marks {lane : LaneId} {epoch : String} {reference : Reference} {b : BookEvent}
    {s s' : GroupState} {events : List MarketRecord} {m : MarketRecord}
    (hlast : s.events = events ++ [m]) (h : e.bookEvent lane epoch reference b s = .ok s') :
    ∃ d, s'.events = events ++ [{ m with disposition := d }] ∧
      (d = .applied ↔ e.TakenBy lane b s') := by
  have hset (d : Disposition) :
      setLastDisposition s.events d = events ++ [{ m with disposition := d }] := by
    rw [hlast]
    simp [setLastDisposition, List.modifyLast_concat]
  unfold bookEvent at h
  cases hauth : e.plans[b.bookKey]?.filter (·.lane = lane) with
  | none =>
    rw [hauth] at h
    obtain rfl := Except.ok.inj h
    refine ⟨.notAuthority, hset _, ?_⟩
    constructor
    · intro heq
      cases heq
    · rintro ⟨plan, -, hplan, hlane, -⟩
      simp [hplan, hlane] at hauth
  | some plan =>
    rw [hauth] at h
    obtain ⟨w, -, h⟩ := Except.bind_eq_ok.mp h
    obtain ⟨w', -, h⟩ := Except.bind_eq_ok.mp h
    obtain rfl := Except.ok.inj h
    obtain ⟨hplan, hlane⟩ : e.plans[b.bookKey]? = some plan ∧ plan.lane = lane := by
      simpa [Option.filter_eq_some_iff] using hauth
    refine ⟨_, hset _, ?_⟩
    have hstaged : (s.staged.insert b.bookKey w')[b.bookKey]? = some w' := by simp
    by_cases huse : w'.view.validity = .usable
    · simp only [huse, if_true, true_iff]
      exact ⟨plan, w', hplan, hlane, hstaged, huse⟩
    · simp only [huse, if_false, reduceCtorEq, false_iff]
      rintro ⟨-, w₁, -, -, hw₁, huse₁⟩
      rw [hstaged] at hw₁
      obtain rfl := Option.some.inj hw₁
      exact huse huse₁

/-- What no book takes leaves the list as it is. -/
theorem recordEvent_events {d : FilteredDelivery} {epoch : String} {reference : Reference}
    {event : SegmentEvent} {s s' : GroupState} (hbook : ∀ b, event ≠ .book b)
    (h : e.recordEvent d epoch reference event s = .ok s') : s'.events = s.events := by
  have hstep {keys : List BookKey} {reason : Reason} {latch : Bool}
      (h : (do let staged ← invalidate s.staged e.books keys reason latch
               pure { s with staged := staged }) = Except.ok s') : s'.events = s.events := by
    obtain ⟨staged, -, h⟩ := Except.bind_eq_ok.mp h
    obtain rfl := Except.ok.inj h
    rfl
  unfold recordEvent at h
  cases event with
  | book b => exact absurd rfl (hbook b)
  | normalizationFault impact =>
    by_cases hnil : (e.relevant d.lane).isEmpty = true
    · simp only [hnil, if_true] at h
      obtain rfl := Except.ok.inj h
      rfl
    · simp only [hnil, Bool.false_eq_true, if_false] at h
      exact hstep h
  | control control =>
    by_cases hnil : (e.relevant d.lane).isEmpty = true
    · simp only [hnil, if_true] at h
      obtain rfl := Except.ok.inj h
      rfl
    · simp only [hnil, Bool.false_eq_true, if_false] at h
      cases hreason : control.reason with
      | none =>
        rw [hreason] at h
        obtain rfl := Except.ok.inj h
        rfl
      | some rl =>
        rw [hreason] at h
        exact hstep h
  | auditAnchor instrument =>
    obtain rfl := Except.ok.inj h
    rfl
  | trade t =>
    obtain rfl := Except.ok.inj h
    rfl

/-- A record adds its market record, if it has one, marked as applied when its book took it. -/
theorem record_marks {pin : DerivativePin} {d : FilteredDelivery} {epoch : String}
    {s s' : GroupState} {r : SegmentRecord} (h : e.record pin d epoch s r = .ok s') :
    ∃ disposition, s'.events = s.events ++
        (market d.duplicate (Reference.new pin r.header) r.event).map
          (fun m => { m with disposition := disposition }) ∧
      (disposition = .applied ↔
        d.duplicate = false ∧ ∃ b, r.event = .book b ∧ e.TakenBy d.lane b s') := by
  unfold record at h
  cases hdup : d.duplicate with
  | true =>
    simp only [hdup, if_true] at h
    obtain rfl := Except.ok.inj h
    refine ⟨.duplicate, ?_, by simp⟩
    cases r.event <;> rfl
  | false =>
    simp only [hdup, Bool.false_eq_true, if_false] at h
    cases hevent : r.event with
    | book b =>
      rw [hevent] at h
      obtain ⟨disposition, hevents, hiff⟩ := bookEvent_marks rfl h
      exact ⟨disposition, hevents, by simp [hiff]⟩
    | trade t =>
      rw [hevent] at h
      exact ⟨.observed, recordEvent_events (by simp) h, by simp⟩
    | normalizationFault impact =>
      rw [hevent] at h
      exact ⟨.observed, recordEvent_events (by simp) h, by simp⟩
    | control control =>
      rw [hevent] at h
      exact ⟨.observed, recordEvent_events (by simp) h, by simp⟩
    | auditAnchor instrument =>
      rw [hevent] at h
      exact ⟨.observed, recordEvent_events (by simp) h, by simp⟩

/-- The stimuli of a record apply to its book what the record is marked with. -/
theorem record_applied {pin : DerivativePin} {d : FilteredDelivery} {epoch : String}
    {s s' : GroupState} {r : SegmentRecord} (hplan : e.plans[k]? = some plan)
    (h : e.record pin d epoch s r = .ok s')
    (hrun : bookRun e plan view (plan.recordStimuli k pin d epoch r) (s.book k plan) =
      .ok (s'.book k plan)) :
    appliedEvents k s'.events = appliedEvents k s.events ++
      (plan.recordStimuli k pin d epoch r).flatMap (Stimulus.applied view (s'.book k plan)) := by
  obtain ⟨disposition, hevents, happlied⟩ := record_marks h
  rw [hevents, appliedEvents_append]
  congr 1
  -- only a book event of the key can be applied to it
  have hnone : (∀ b, r.event = .book b → b.bookKey ≠ k) →
      (plan.recordStimuli k pin d epoch r).flatMap (Stimulus.applied view (s'.book k plan)) = [] ∧
        appliedEvents k ((market d.duplicate (Reference.new pin r.header) r.event).map
          (fun m => { m with disposition := disposition })) = [] := by
    intro hother
    constructor
    · rw [List.flatMap_eq_nil_iff]
      intro stimulus hmem
      unfold BookPlan.recordStimuli at hmem
      split at hmem
      · rcases BookPlan.mem_eventStimuli.mp hmem with
          ⟨b, hb, hkey, -⟩ | ⟨_, _, _, rfl⟩ | ⟨_, _, _, _, _, rfl⟩
        · exact absurd hkey (hother b hb)
        · rfl
        · rfl
      · cases hmem
    · cases hevent : r.event with
      | book b => simp [appliedEvents, market, MarketRecord.appliedTo, hother b hevent]
      | _ => rfl
  by_cases hbook : ∃ b, r.event = .book b ∧ b.bookKey = k
  · obtain ⟨b, hb, rfl⟩ := hbook
    have hmark : appliedEvents b.bookKey ((market d.duplicate (Reference.new pin r.header)
        r.event).map (fun m => { m with disposition := disposition })) =
        if disposition = .applied then [b] else [] := by
      rw [hb]
      by_cases hd : disposition = .applied <;>
        simp [appliedEvents, market, MarketRecord.appliedTo, hd]
    rw [hmark]
    cases hheeds : plan.heeds d with
    | false =>
      have hnot : disposition ≠ .applied := by
        intro hd
        obtain ⟨hdup, b', hb', plan', w, hplan', hlane, -⟩ := happlied.mp hd
        rw [hb] at hb'
        obtain rfl := SegmentEvent.book.inj hb'
        rw [hplan] at hplan'
        obtain rfl := Option.some.inj hplan'
        simp [BookPlan.heeds, hdup, hlane] at hheeds
      simp [BookPlan.recordStimuli, hheeds, hnot]
    | true =>
      have hstimuli : plan.recordStimuli b.bookKey pin d epoch r =
          [.book b (Reference.new pin r.header) epoch] := by
        simp [BookPlan.recordStimuli, hheeds, hb, BookPlan.eventStimuli]
      rw [hstimuli] at hrun ⊢
      obtain ⟨t, hact, hrun⟩ := List.foldlM_cons_eq_ok.mp hrun
      obtain ⟨w, -, hact⟩ := Except.bind_eq_ok.mp hact
      obtain rfl := Except.ok.inj hact
      have hbookState := Except.ok.inj hrun
      have hstaged : s'.staged[b.bookKey]? = some w := (congrArg BookState.staged hbookState).symm
      have hiff : disposition = .applied ↔ w.view.validity = .usable := by
        obtain ⟨hdup, hlane⟩ : d.duplicate = false ∧ d.lane = plan.lane := by
          simpa [BookPlan.heeds] using hheeds
        rw [happlied]
        constructor
        · rintro ⟨-, b', hb', _, w', -, -, hw', huse⟩
          rw [hb] at hb'
          obtain rfl := SegmentEvent.book.inj hb'
          rw [hstaged] at hw'
          obtain rfl := Option.some.inj hw'
          exact huse
        · intro huse
          exact ⟨hdup, b, hb, plan, w, hplan, hlane.symm, hstaged, huse⟩
      have hwork : ((s'.book b.bookKey plan).work view) = w := by
        simp [GroupState.book, BookState.work, hstaged]
      simp only [List.flatMap_cons, List.flatMap_nil, List.append_nil, Stimulus.applied, hwork]
      by_cases huse : w.view.validity = .usable
      · rw [if_pos (hiff.mpr huse), if_pos huse]
      · rw [if_neg (mt hiff.mp huse), if_neg huse]
  · have hother : ∀ b, r.event = .book b → b.bookKey ≠ k :=
      fun b hb hkey => hbook ⟨b, hb, hkey⟩
    rw [(hnone hother).1, (hnone hother).2]

/-- What holds of one book all through the delivery loop. -/
structure LoopTells (e : RiskEngine) (k : BookKey) (plan : BookPlan) (view : BookView)
    (s : GroupState) : Prop where
  planned : ∀ k ∈ s.staged, k ∈ e.plans
  tells : (s.book k plan).Tells plan view (appliedEvents k s.events)

theorem record_tells (hc : e.Closed) (hplan : e.plans[k]? = some plan)
    (hview : e.books[k]? = some view) {pin : DerivativePin} {d : FilteredDelivery}
    {epoch : String} {s s' : GroupState} {r : SegmentRecord} (h : e.LoopTells k plan view s)
    (hrecord : e.record pin d epoch s r = .ok s') : e.LoopTells k plan view s' := by
  have hfollows : Follows e False (fun k plan => plan.recordStimuli k pin d epoch r) s
      (e.record pin d epoch s r) := record_follows hc h.planned pin d epoch r
  obtain ⟨hdom, hruns⟩ := hfollows.of_ok hrecord
  have hrun : bookRun e plan view (plan.recordStimuli k pin d epoch r) (s.book k plan) =
      .ok (s'.book k plan) := hruns k plan view hplan hview
  refine ⟨hdom, ?_⟩
  rw [record_applied hplan hrecord hrun]
  -- a record is at most one stimulus
  have hone : plan.recordStimuli k pin d epoch r = [] ∨
      ∃ stimulus, plan.recordStimuli k pin d epoch r = [stimulus] := by
    unfold BookPlan.recordStimuli BookPlan.eventStimuli
    grind
  rcases hone with hnil | ⟨stimulus, hone⟩
  · rw [hnil] at hrun ⊢
    rw [← Except.ok.inj hrun]
    simpa using h.tells
  · rw [hone] at hrun ⊢
    obtain ⟨t, hact, hrun⟩ := List.foldlM_cons_eq_ok.mp hrun
    obtain rfl := Except.ok.inj hrun
    simpa using act_tells h.tells hact

theorem deliver_tells (hc : e.Closed) (hplan : e.plans[k]? = some plan)
    (hview : e.books[k]? = some view) {pin : DerivativePin} {d : FilteredDelivery}
    {s s' : GroupState} (h : e.LoopTells k plan view s)
    (hdeliver : e.deliver pin s d = .ok s') : e.LoopTells k plan view s' := by
  obtain ⟨epoch, -, hdeliver⟩ := Except.bind_eq_ok.mp hdeliver
  obtain ⟨s₁, hsource, hrecords⟩ := Except.bind_eq_ok.mp hdeliver
  have h₁ : e.LoopTells k plan view s₁ := by
    have hfollows : Follows e False
        (fun _ plan => if plan.heeds d then [.source d.header.continuity epoch] else []) s
        (e.source d epoch s) := source_follows hc h.planned d epoch
    obtain ⟨hdom, hruns⟩ := hfollows.of_ok hsource
    have hrun := hruns k plan view hplan hview
    refine ⟨hdom, ?_⟩
    rw [source_events hsource]
    cases hheeds : plan.heeds d with
    | false =>
      simp only [hheeds, Bool.false_eq_true, if_false] at hrun
      rw [← Except.ok.inj hrun]
      exact h.tells
    | true =>
      simp only [hheeds, if_true] at hrun
      obtain ⟨t, hact, hrun⟩ := List.foldlM_cons_eq_ok.mp hrun
      obtain rfl := Except.ok.inj hrun
      simpa [Stimulus.applied] using act_tells h.tells hact
  refine List.foldlM_inv (e.LoopTells k plan view) hrecords h₁ ?_
  intro t r t' _ ht hrecord
  exact record_tells hc hplan hview ht hrecord

/-- After the delivery loop every book is in step with its applied events. -/
theorem loop_tells (hc : e.Closed) (hplan : e.plans[k]? = some plan)
    (hview : e.books[k]? = some view) {g : AtomicGroup} {s : GroupState}
    (h : g.deliveries.foldlM (e.deliver g.pin) ⟨e.epochs, ∅, [], []⟩ = .ok s) :
    (s.book k plan).Tells plan view (appliedEvents k s.events) := by
  have hstart : e.LoopTells k plan view ⟨e.epochs, ∅, [], []⟩ :=
    ⟨by simp, ⟨.new view, fun _ => rfl⟩⟩
  refine (List.foldlM_inv (e.LoopTells k plan view) h hstart ?_).tells
  intro t d t' _ ht hdeliver
  exact deliver_tells hc hplan hview ht hdeliver

/-! ## The dispositions of a cut -/

/-- The correction drops the applied events of the books that end out of use. -/
theorem appliedEvents_final (staged : Staged) (k : BookKey) (events : List MarketRecord) :
    appliedEvents k (events.map (finalDisposition staged)) =
      if staged[k]?.any (·.view.validity ≠ .usable) then [] else appliedEvents k events := by
  have hone : ∀ r : MarketRecord, (finalDisposition staged r).appliedTo k =
      if staged[k]?.any (·.view.validity ≠ .usable) then none else r.appliedTo k := by
    rintro ⟨reference, event, disposition⟩
    cases event with
    | trade t => simp [finalDisposition, MarketRecord.appliedTo]
    | book b =>
      by_cases hkey : b.bookKey = k
      · subst hkey
        simp only [finalDisposition]
        generalize staged[b.bookKey]?.any (·.view.validity ≠ .usable) = out
        cases out <;> cases disposition <;> simp [MarketRecord.appliedTo]
      · have hother : ∀ d : Disposition,
            MarketRecord.appliedTo k ⟨reference, .book b, d⟩ = none := by
          intro d
          simp [MarketRecord.appliedTo, hkey]
        unfold finalDisposition
        simp only
        split <;> simp [hother]
  unfold appliedEvents
  rw [List.filterMap_map]
  split
  · rename_i hout
    rw [List.filterMap_eq_nil_iff]
    intro r _
    rw [Function.comp_apply, hone, if_pos hout]
  · rename_i hout
    refine List.filterMap_congr fun r _ => ?_
    rw [Function.comp_apply, hone, if_neg hout]

/-! ## Duplicates -/

/-- Two states of the loop that no book can tell apart. -/
structure SameBooks (s t : GroupState) : Prop where
  epochs : s.epochs = t.epochs
  staged : s.staged = t.staged

theorem source_same {d : FilteredDelivery} {epoch : String} {s t : GroupState}
    (h : SameBooks s t) : Alike SameBooks (e.source d epoch s) (e.source d epoch t) := by
  by_cases hskip : (d.duplicate || (e.relevant d.lane).isEmpty) = true
  · simp only [source, hskip, if_true]
    exact .ok h
  · rw [source_eq d epoch s hskip, source_eq d epoch t hskip, h.epochs, h.staged]
    exact .same _ fun staged₁ => .same _ fun staged₂ => .ok ⟨rfl, rfl⟩

theorem bookEvent_same {lane : LaneId} {epoch : String} {reference : Reference} {b : BookEvent}
    {s t : GroupState} (h : SameBooks s t) :
    Alike SameBooks (e.bookEvent lane epoch reference b s) (e.bookEvent lane epoch reference b t) := by
  unfold bookEvent
  cases e.plans[b.bookKey]?.filter (·.lane = lane) with
  | none => exact .ok ⟨h.epochs, h.staged⟩
  | some plan =>
    simp only [h.staged]
    exact .same _ fun w => .same _ fun w' => .ok ⟨h.epochs, rfl⟩

theorem recordEvent_same {d : FilteredDelivery} {epoch : String} {reference : Reference}
    {event : SegmentEvent} {s t : GroupState} (h : SameBooks s t) :
    Alike SameBooks (e.recordEvent d epoch reference event s)
      (e.recordEvent d epoch reference event t) := by
  unfold recordEvent
  cases event with
  | book b => exact bookEvent_same h
  | normalizationFault impact =>
    by_cases hnil : (e.relevant d.lane).isEmpty = true
    · simp only [hnil, if_true]
      exact .ok h
    · simp only [hnil, h.staged]
      exact .same _ fun staged => .ok ⟨h.epochs, rfl⟩
  | control control =>
    by_cases hnil : (e.relevant d.lane).isEmpty = true
    · simp only [hnil, if_true]
      exact .ok h
    · simp only [hnil, h.staged]
      cases control.reason with
      | none => exact .ok h
      | some rl => exact .same _ fun staged => .ok ⟨h.epochs, rfl⟩
  | auditAnchor instrument => exact .ok h
  | trade t => exact .ok h

theorem record_same {pin : DerivativePin} {d : FilteredDelivery} {epoch : String}
    {r : SegmentRecord} {s t : GroupState} (h : SameBooks s t) :
    Alike SameBooks (e.record pin d epoch s r) (e.record pin d epoch t r) := by
  unfold record
  cases hdup : d.duplicate with
  | true => exact .ok ⟨h.epochs, h.staged⟩
  | false => exact recordEvent_same ⟨h.epochs, h.staged⟩

theorem deliver_same {pin : DerivativePin} {d : FilteredDelivery} {s t : GroupState}
    (h : SameBooks s t) : Alike SameBooks (e.deliver pin s d) (e.deliver pin t d) := by
  unfold deliver
  refine .same _ fun epoch => ?_
  refine (source_same h).bind ?_
  intro s' t' h'
  exact Alike.foldlM (f := e.record pin d epoch) (g := e.record pin d epoch)
    (fun _ _ _ _ h => record_same h) h'

/-- A duplicate with its epoch only adds market records. -/
theorem deliver_duplicate {pin : DerivativePin} {d : FilteredDelivery}
    (hdup : d.duplicate = true) (hepoch : d.connectionEpoch.isSome) (s : GroupState) :
    ∃ s', e.deliver pin s d = .ok s' ∧ SameBooks s' s := by
  obtain ⟨epoch, hepoch⟩ := Option.isSome_iff_exists.mp hepoch
  have hrecords : ∀ (records : List SegmentRecord) (t : GroupState),
      ∃ t', records.foldlM (e.record pin d epoch) t = .ok t' ∧ SameBooks t' t := by
    intro records
    induction records with
    | nil => exact fun t => ⟨t, rfl, rfl, rfl⟩
    | cons r records ih =>
      intro t
      obtain ⟨t', hrun, hsame⟩ :=
        ih { t with events := t.events ++ market true (Reference.new pin r.header) r.event }
      refine ⟨t', ?_, hsame.epochs, hsame.staged⟩
      rw [List.foldlM_cons]
      simp only [record, hdup, if_true]
      exact hrun
  obtain ⟨s', hrun, hsame⟩ := hrecords d.records s
  refine ⟨s', ?_, hsame⟩
  simp only [deliver, hepoch, okOr, Except.ok_bind, source, hdup, Bool.true_or, if_true]
  exact hrun


/-- Without its duplicates a group leads to the same engine by the same transitions, as long as
    they carry their epochs. -/
theorem group_withoutDuplicates {g : AtomicGroup}
    (h : ∀ d ∈ g.deliveries, d.duplicate = true → d.connectionEpoch.isSome) :
    (e.group g.withoutDuplicates).map (fun r => (r.1, r.2.bookTransitions)) =
      (e.group g).map (fun r => (r.1, r.2.bookTransitions)) := by
  have hloop : ∀ (deliveries : List FilteredDelivery) (s t : GroupState),
      (∀ d ∈ deliveries, d.duplicate = true → d.connectionEpoch.isSome) → SameBooks s t →
      Alike SameBooks ((deliveries.filter (!·.duplicate)).foldlM (e.deliver g.pin) s)
        (deliveries.foldlM (e.deliver g.pin) t) := by
    intro deliveries
    induction deliveries with
    | nil => exact fun s t _ hst => .ok hst
    | cons d deliveries ih =>
      intro s t hd hst
      have hrest : ∀ d ∈ deliveries, d.duplicate = true → d.connectionEpoch.isSome :=
        fun d' hd' => hd d' (List.mem_cons_of_mem d hd')
      rw [List.foldlM_cons]
      cases hdup : d.duplicate with
      | true =>
        have hdeliver : ∃ t', e.deliver g.pin t d = .ok t' ∧ SameBooks t' t :=
          deliver_duplicate hdup (hd d List.mem_cons_self hdup) t
        obtain ⟨t', hrun, hsame⟩ := hdeliver
        rw [List.filter_cons_of_neg (by simp [hdup]), hrun]
        exact ih s t' hrest ⟨hst.epochs.trans hsame.epochs.symm, hst.staged.trans hsame.staged.symm⟩
      | false =>
        rw [List.filter_cons_of_pos (by simp [hdup]), List.foldlM_cons]
        exact (deliver_same hst).bind fun s' t' hst' => ih s' t' hrest hst'
  have hall := hloop g.deliveries ⟨e.epochs, ∅, [], []⟩ ⟨e.epochs, ∅, [], []⟩ h ⟨rfl, rfl⟩
  refine Alike.map_eq (R := fun r r' => r.1 = r'.1 ∧ r.2.bookTransitions = r'.2.bookTransitions)
    (hall.bind ?_) fun _ _ h => Prod.ext h.1 h.2
  -- committing reads the epochs and the staged work only
  intro s t hst
  rw [hst.epochs, hst.staged]
  exact .same _ fun sequence => .same _ fun transitions => .ok ⟨rfl, rfl⟩

/-! ## What a cut tells -/

/-- A market record of a cut and the record of the group that it is about. -/
structure Marked (e : RiskEngine) (pin : DerivativePin) (dr : FilteredDelivery × SegmentRecord)
    (m : MarketRecord) : Prop where
  reference : m.reference = Reference.new pin dr.2.header
  event : (∃ b, dr.2.event = .book b ∧ m.event = .book b) ∨
    ∃ t, dr.2.event = .trade t ∧ m.event = .trade t
  applied : m.disposition = .applied → dr.1.duplicate = false ∧
    ∃ b plan, dr.2.event = .book b ∧ e.plans[b.bookKey]? = some plan ∧ plan.lane = dr.1.lane

theorem record_marked {pin : DerivativePin} {d : FilteredDelivery} {epoch : String}
    {s s' : GroupState} {r : SegmentRecord} (h : e.record pin d epoch s r = .ok s') :
    ∃ marks, s'.events = s.events ++ marks ∧
      List.Forall₂ (e.Marked pin) (([r].filter (·.event.isMarket)).map (d, ·)) marks := by
  obtain ⟨disposition, hevents, hiff⟩ := record_marks h
  refine ⟨_, hevents, ?_⟩
  have happlied : disposition = .applied → d.duplicate = false ∧
      ∃ b plan, r.event = .book b ∧ e.plans[b.bookKey]? = some plan ∧ plan.lane = d.lane := by
    intro hd
    obtain ⟨hdup, b, hb, plan, _, hplan, hlane, -⟩ := hiff.mp hd
    exact ⟨hdup, b, plan, hb, hplan, hlane⟩
  cases hevent : r.event with
  | book b =>
    simp only [List.filter, hevent, SegmentEvent.isMarket]
    exact .cons ⟨rfl, .inl ⟨b, hevent, rfl⟩, happlied⟩ .nil
  | trade t =>
    simp only [List.filter, hevent, SegmentEvent.isMarket]
    exact .cons ⟨rfl, .inr ⟨t, hevent, rfl⟩, happlied⟩ .nil
  | normalizationFault impact =>
    simp only [List.filter, hevent, SegmentEvent.isMarket]
    exact .nil
  | control control =>
    simp only [List.filter, hevent, SegmentEvent.isMarket]
    exact .nil
  | auditAnchor instrument =>
    simp only [List.filter, hevent, SegmentEvent.isMarket]
    exact .nil

theorem deliver_marked {pin : DerivativePin} {d : FilteredDelivery} {s s' : GroupState}
    (h : e.deliver pin s d = .ok s') :
    ∃ marks, s'.events = s.events ++ marks ∧
      List.Forall₂ (e.Marked pin) d.marketSources marks := by
  obtain ⟨epoch, -, h⟩ := Except.bind_eq_ok.mp h
  obtain ⟨s₁, hsource, h⟩ := Except.bind_eq_ok.mp h
  rw [← source_events hsource]
  refine List.foldlM_prefix_inv (fun done (t : GroupState) => ∃ marks,
    t.events = s₁.events ++ marks ∧ List.Forall₂ (e.Marked pin)
      ((done.filter (·.event.isMarket)).map (d, ·)) marks) h ⟨[], by simp, .nil⟩ ?_
  rintro done r _ t t' - - ⟨marks, ht, hmarks⟩ hrecord
  obtain ⟨more, ht', hmore⟩ := record_marked hrecord
  refine ⟨marks ++ more, by rw [ht', ht, List.append_assoc], ?_⟩
  rw [List.filter_append, List.map_append]
  exact List.rel_append hmarks hmore

/-- The correction of the dispositions leaves the rest of a record as it is. -/
theorem Marked.final {pin : DerivativePin} {dr : FilteredDelivery × SegmentRecord}
    {m : MarketRecord} (h : e.Marked pin dr m) (staged : Staged) :
    e.Marked pin dr (finalDisposition staged m) := by
  unfold finalDisposition
  split
  · split
    · exact ⟨h.reference, h.event, fun heq => nomatch heq⟩
    · exact h
  · exact h

/-- A cut marks the market events of its group, all of them and in order. -/
theorem loop_marked {g : AtomicGroup} {s : GroupState}
    (h : g.deliveries.foldlM (e.deliver g.pin) ⟨e.epochs, ∅, [], []⟩ = .ok s) :
    List.Forall₂ (e.Marked g.pin) (g.deliveries.flatMap (·.marketSources)) s.events := by
  refine List.foldlM_prefix_inv (fun done (t : GroupState) =>
    List.Forall₂ (e.Marked g.pin) (done.flatMap (·.marketSources)) t.events) h .nil ?_
  rintro done d _ t t' - - ht hdeliver
  obtain ⟨marks, ht', hmarks⟩ := deliver_marked hdeliver
  rw [ht', List.flatMap_append]
  exact List.rel_append ht (by simpa using hmarks)

/-- The decision, the view and the dispositions of one transition of a group's cut. -/
structure Faithful (e e' : RiskEngine) (g : AtomicGroup) (cut : RiskCut) (plan : BookPlan)
    (old : BookView) (t : BookTransition) : Prop where
  previousRevision : t.previousRevision = old.revision
  revision : t.view.revision = t.previousRevision + 1
  stored : e'.books[t.key]? = some t.view
  operations : ∀ ops, t.decision = .operations ops →
    appliedEvents t.key cut.marketEvents = ops.map .delta ∧
      ∃ l₀ l, old.ladder = some l₀ ∧ l₀.replay ops = .ok l ∧ t.view.ladder = some l
  snapshot : ∀ ladder, t.decision = .snapshot ladder → t.view.ladder = some ladder ∧
    FullThen plan (appliedEvents t.key cut.marketEvents) ladder
  invalidation : ∀ reason, t.decision = .invalidation reason → t.view.ladder = none ∧
    appliedEvents t.key cut.marketEvents = []
  cause : ∀ reason, firstCause e plan old (plan.groupStimuli t.key g)
    ⟨e.epochs[plan.lane]?, none⟩ = some reason → t.decision = .invalidation reason

/-- A group's loop, its commit and the engine before it. -/
structure Grouped (e : RiskEngine) (g : AtomicGroup) (e' : RiskEngine) (cut : RiskCut)
    (s : GroupState) : Prop where
  loop : g.deliveries.foldlM (e.deliver g.pin) ⟨e.epochs, ∅, [], []⟩ = .ok s
  commits : CommitSpec { e with epochs := s.epochs }
    (.group g.pin g.first g.last g.visibleNs) (s.events.map (finalDisposition s.staged))
    s.controls s.staged e' cut

theorem exists_grouped {g : AtomicGroup} {cut : RiskCut} (h : e.group g = .ok (e', cut)) :
    ∃ s, Grouped e g e' cut s := by
  obtain ⟨s, hloop, hcommit⟩ := Except.bind_eq_ok.mp h
  exact ⟨s, hloop, (commit_meets _ _ _ s.staged).of_ok hcommit⟩

theorem Grouped.marketEvents {g : AtomicGroup} {cut : RiskCut} {s : GroupState}
    (h : Grouped e g e' cut s) : cut.marketEvents = s.events.map (finalDisposition s.staged) :=
  congrArg RiskCut.marketEvents h.commits.content

theorem Decides.of_operations {w : Work} {ops : List BookDelta} (h : Decides w (.operations ops)) :
    w.view.validity = .usable ∧ w.full = false ∧ ops = w.operations := by
  unfold Decides at h
  cases hv : w.view.validity <;> cases hf : w.full <;> simp_all

theorem Decides.of_snapshot {w : Work} {ladder : Ladder} (h : Decides w (.snapshot ladder)) :
    w.view.validity = .usable ∧ w.full = true ∧ w.view.ladder = some ladder := by
  unfold Decides at h
  cases hv : w.view.validity <;> cases hf : w.full <;> simp_all

theorem Decides.of_invalidation {w : Work} {reason : Reason}
    (h : Decides w (.invalidation reason)) : w.view.validity = .unusable reason := by
  unfold Decides at h
  cases hv : w.view.validity <;> cases hf : w.full <;> simp_all

/-- A transition of a group's cut is faithful to what the group did to its book. -/
theorem Grouped.faithful {g : AtomicGroup} {cut : RiskCut} {s : GroupState} {t : BookTransition}
    (hok : e.Ok) (hgroup : e.group g = .ok (e', cut)) (h : Grouped e g e' cut s)
    (ht : t ∈ cut.bookTransitions) :
    ∃ plan old, e.plans[t.key]? = some plan ∧ e.books[t.key]? = some old ∧
      Faithful e e' g cut plan old t := by
  obtain ⟨plan, old, hplan, hold, hprevious, hrevision, hdecided⟩ :=
    (group_cut hok hgroup).transitions t ht
  obtain ⟨⟨k, w⟩, hkw, old', -, hcommits⟩ := h.commits.transitions.exists_of_mem_right ht
  obtain rfl : t.key = k := hcommits.key
  have hw : s.staged[t.key]? = some w := Std.ExtTreeMap.mem_toList_iff_getElem?_eq_some.mp hkw
  have hwork : (s.book t.key plan).work old = w := by
    simp [BookState.work, GroupState.book, hw]
  have htells := (loop_tells hok.closed hplan hold h.loop).work
  rw [hwork] at htells
  have happlied : appliedEvents t.key cut.marketEvents =
      if w.view.validity = .usable then appliedEvents t.key s.events else [] := by
    rw [h.marketEvents, appliedEvents_final, hw]
    by_cases huse : w.view.validity = .usable <;> simp [huse]
  have hdecision := hcommits.decision
  have hstored : e'.books[t.key]? = some t.view := by
    rw [h.commits.books]
    exact Std.ExtTreeMap.getElem?_foldl_insert_of_mem h.commits.keys_pairwise ht
  refine ⟨plan, old, hplan, hold, hprevious, by rw [hrevision, hprevious], hstored, ?_, ?_, ?_, ?_⟩
  · intro ops hops
    rw [hops] at hdecision
    obtain ⟨huse, hfull, rfl⟩ := hdecision.of_operations
    rw [happlied, if_pos huse]
    refine ⟨htells.operations huse hfull, ?_⟩
    cases hdecided with
    | operations ops l₀ l hops' _ hl₀ hreplay _ _ hl =>
      rw [hops] at hops'
      obtain rfl := Decision.operations.inj hops'
      exact ⟨l₀, l, hl₀, hreplay, hl⟩
    | snapshot l hsnapshot =>
      rw [hops] at hsnapshot
      cases hsnapshot
    | invalidation reason hinvalid =>
      rw [hops] at hinvalid
      cases hinvalid
  · intro ladder hladder
    rw [hladder] at hdecision
    obtain ⟨huse, hfull, hl⟩ := hdecision.of_snapshot
    rw [happlied, if_pos huse, hcommits.view]
    refine ⟨hl, ?_⟩
    obtain ⟨l, hl', hfullThen⟩ := htells.snapshot huse hfull
    rw [hl] at hl'
    obtain rfl := Option.some.inj hl'
    exact hfullThen
  · intro reason hreason
    rw [hreason] at hdecision
    have hv := hdecision.of_invalidation
    have hout : w.view.validity ≠ .usable := by
      rw [hv]
      simp
    rw [happlied, if_neg hout, hcommits.view]
    refine ⟨?_, rfl⟩
    cases hdecided with
    | invalidation reason' _ _ hnone => rwa [hcommits.view] at hnone
    | snapshot l hsnapshot =>
      rw [hreason] at hsnapshot
      cases hsnapshot
    | operations ops l₀ l hops =>
      rw [hreason] at hops
      cases hops
  · intro reason hcause
    have hrun := ((group_follows hok.closed g).of_ok h.loop).2 t.key plan old hplan hold
    have hlatched := (bookRun_firstCause rfl hcause hrun).2
    rw [hwork] at hlatched
    unfold Decides at hdecision
    rw [hlatched] at hdecision
    exact hdecision

/-- A book without a transition keeps its view, and nothing was applied to it. -/
theorem Grouped.untouched {g : AtomicGroup} {cut : RiskCut} {s : GroupState} {k : BookKey}
    {view : BookView} (hok : e.Ok) (h : Grouped e g e' cut s) (hview : e.books[k]? = some view)
    (hnone : ∀ t ∈ cut.bookTransitions, t.key ≠ k) :
    e'.books[k]? = some view ∧ appliedEvents k cut.marketEvents = [] := by
  have hstaged : s.staged[k]? = none := by
    cases hw : s.staged[k]? with
    | none => rfl
    | some w =>
      obtain ⟨_, t, _, ht, hcommits, _⟩ := h.commits.books_some hw
      exact absurd hcommits.key (hnone t ht)
  have hk : k ∈ e.plans := by
    rw [← hok.closed k, Std.ExtTreeMap.mem_iff_isSome_getElem?, hview]
    rfl
  have hplan : e.plans[k]? = some e.plans[k] := by simp [hk]
  have htells := loop_tells hok.closed hplan hview h.loop
  constructor
  · rw [h.commits.books_none hstaged]
    exact hview
  · rw [h.marketEvents, appliedEvents_final, hstaged]
    simpa using htells.unstaged hstaged

/-- A group of any reachable engine: every transition is faithful, books without one are left
    alone, every market event is listed and marked, and duplicates change nothing. -/
theorem group_decisions (h : Reachable e) (g : AtomicGroup) :
    (∀ e' cut, e.group g = .ok (e', cut) →
      (∀ t ∈ cut.bookTransitions, ∃ plan old, e.plans[t.key]? = some plan ∧
        e.books[t.key]? = some old ∧ Faithful e e' g cut plan old t) ∧
      (∀ k view, e.books[k]? = some view → (∀ t ∈ cut.bookTransitions, t.key ≠ k) →
        e'.books[k]? = some view ∧ appliedEvents k cut.marketEvents = []) ∧
      List.Forall₂ (e.Marked g.pin) (g.deliveries.flatMap (·.marketSources)) cut.marketEvents ∧
      ∃ cut', e.group g.withoutDuplicates = .ok (e', cut') ∧
        cut'.bookTransitions = cut.bookTransitions) ∧
    ((∀ d ∈ g.deliveries, d.duplicate = true → d.connectionEpoch.isSome) →
      (e.group g.withoutDuplicates).map (fun r => (r.1, r.2.bookTransitions)) =
        (e.group g).map (fun r => (r.1, r.2.bookTransitions))) := by
  refine ⟨?_, group_withoutDuplicates⟩
  intro e' cut hgroup
  obtain ⟨s, hs⟩ := exists_grouped hgroup
  refine ⟨fun t ht => hs.faithful h.ok hgroup ht, fun k view hview => hs.untouched h.ok hview,
    ?_, ?_⟩
  · rw [hs.marketEvents, List.forall₂_map_right_iff]
    exact (loop_marked hs.loop).imp fun dr m hm => hm.final s.staged
  · have hepochs : ∀ d ∈ g.deliveries, d.duplicate = true → d.connectionEpoch.isSome := by
      intro d hd _
      obtain ⟨epoch, hepoch⟩ := connectionEpoch_of_group hgroup hd
      rw [hepoch]
      rfl
    have hsame := group_withoutDuplicates (e := e) hepochs
    rw [hgroup] at hsame
    cases hwithout : e.group g.withoutDuplicates with
    | error halt =>
      rw [hwithout] at hsame
      cases hsame
    | ok r =>
      rw [hwithout] at hsame
      obtain ⟨rfl, htransitions⟩ := Prod.mk.inj (Except.ok.inj hsame)
      exact ⟨r.2, rfl, htransitions⟩

/-- The sample's Full and the same delivery again, as a duplicate. -/
def sampleRepeatedGroup : AtomicGroup :=
  sampleGroup [sampleDelivery "a" [.book (.full sampleFull)],
    { sampleDelivery "a" [.book (.full sampleFull)] with header := sampleHeader .duplicate }]

theorem group_decisions_sample :
    ∃ e e' : RiskEngine, ∃ cut cut', Reachable e ∧
      e.group sampleRepeatedGroup = .ok (e', cut) ∧
      e.group sampleRepeatedGroup.withoutDuplicates = .ok (e', cut') ∧
      cut'.bookTransitions = cut.bookTransitions := by
  obtain ⟨e, hreach, he⟩ := exists_reachable_of_sampleRun []
    (fun e => (e.group sampleRepeatedGroup).toOption.isSome) (by decide +kernel)
  cases hgroup : e.group sampleRepeatedGroup with
  | error halt => simp [hgroup, Except.toOption] at he
  | ok r =>
    obtain ⟨-, -, -, cut', hwithout, hsame⟩ :=
      (group_decisions hreach sampleRepeatedGroup).1 r.1 r.2 hgroup
    exact ⟨e, r.1, r.2, cut', hreach, hgroup, hwithout, hsame⟩

end RiskEngine

end PredictionIndexer.Engine
