import Mathlib
import PredictionIndexer.Spec.BookMachine

/-!
# What a committed cut contains

`RiskEngine::commit` turns staged work into transitions and stores their views. This file says
what it stores, and then what one accepted item does to one planned book: a group commits the
end of the book's run over the group's stimuli (`group_spec`), a window status fails the books
of blocked lanes (`window_spec`).

Key results:
- `commit_meets` — the content of a committed cut, and how a commit can fail
- `group_meets` — a group is the books' runs, committed
- `window_meets` — a window status blocks lanes and fails their books
-/

namespace PredictionIndexer.Engine

open Fallible

namespace RiskEngine

variable {e : RiskEngine}

/-! ## Committing -/

/-- The decision a piece of work is committed with. -/
def Decides (w : Work) (decision : Decision) : Prop :=
  match w.view.validity with
  | .usable =>
    if w.full then ∃ ladder, w.view.ladder = some ladder ∧ decision = .snapshot ladder
    else decision = .operations w.operations
  | .unusable reason => decision = .invalidation reason
  | .notInitialized => False

/-- The transition `t` commits the work `w` over the view `old` of the book `k`. -/
structure Commits (origin : CutOrigin) (k : BookKey) (old : BookView) (w : Work)
    (t : BookTransition) : Prop where
  key : t.key = k
  previousRevision : t.previousRevision = old.revision
  revision : old.revision + 1 < 2 ^ 64
  view : t.view = { w.view with revision := old.revision + 1, asOf := some origin }
  decision : Decides w t.decision

/-- Work that cannot be committed: its book is unknown, or its view was never decided. -/
def Unfit (books : Std.ExtTreeMap BookKey BookView) (k : BookKey) (w : Work) : Prop :=
  books[k]? = none ∨ w.view.validity = .notInitialized ∨
    (w.view.validity = .usable ∧ w.view.ladder = none)

theorem commitWork_meets (origin : CutOrigin) (books : Std.ExtTreeMap BookKey BookView)
    (kw : BookKey × Work) :
    (commitWork origin books kw).Meets
      (fun h => h = .err "book revision overflow" ∨ Unfit books kw.1 kw.2)
      (fun t => ∃ old, books[kw.1]? = some old ∧ Commits origin kw.1 old kw.2 t) := by
  obtain ⟨k, w⟩ := kw
  unfold commitWork
  cases hold : books[k]? with
  | none => exact .inr (.inl hold)
  | some old =>
    simp only [unwrap, Except.ok_bind]
    by_cases hrev : old.revision + 1 < 2 ^ 64
    · simp only [checkedAdd, hrev, if_true, okOr, Except.ok_bind]
      cases hv : w.view.validity with
      | notInitialized => exact .inr (.inr (.inl hv))
      | unusable reason =>
        exact ⟨old, rfl, rfl, rfl, hrev, by simp [hv], by simp [Decides, hv]⟩
      | usable =>
        cases hfull : w.full with
        | false =>
          exact ⟨old, rfl, rfl, rfl, hrev, by simp [hv], by simp [Decides, hv, hfull]⟩
        | true =>
          cases hladder : w.view.ladder with
          | none => exact .inr (.inr (.inr ⟨hv, hladder⟩))
          | some ladder =>
            exact ⟨old, rfl, rfl, rfl, hrev, by simp [hv, hladder],
              by simp [Decides, hv, hfull, hladder]⟩
    · simp only [checkedAdd, hrev, if_false, okOr, Except.error_bind]
      exact .inl rfl

/-- How a commit can fail. -/
def CommitHalts (e : RiskEngine) (staged : Staged) (h : Halt) : Prop :=
  h = .err "cut sequence overflow" ∨ h = .err "book revision overflow" ∨
    ∃ k w, staged[k]? = some w ∧ Unfit e.books k w

/-- Everything a committed cut and the engine after it contain. -/
structure CommitSpec (e : RiskEngine) (origin : CutOrigin) (events : List MarketRecord)
    (controls : List ControlRecord) (staged : Staged) (e' : RiskEngine) (cut : RiskCut) :
    Prop where
  engine : e' = { e with books := e'.books, sequence := e.sequence + 1 }
  transitions : List.Forall₂
    (fun kw t => ∃ old, e.books[kw.1]? = some old ∧ Commits origin kw.1 old kw.2 t)
    staged.toList cut.bookTransitions
  books : e'.books = cut.bookTransitions.foldl (fun m t => m.insert t.key t.view) e.books
  content : cut = ⟨e.sequence + 1, origin, events, controls, cut.bookTransitions⟩

theorem commit_meets (origin : CutOrigin) (events : List MarketRecord)
    (controls : List ControlRecord) (staged : Staged) :
    (e.commit origin events controls staged).Meets (CommitHalts e staged)
      (fun r => CommitSpec e origin events controls staged r.1 r.2) := by
  unfold commit
  by_cases hseq : e.sequence + 1 < 2 ^ 64
  · simp only [checkedAdd, hseq, if_true, okOr, Except.ok_bind]
    have hall : ∀ kw ∈ staged.toList, (commitWork origin e.books kw).Meets (CommitHalts e staged)
        fun t => ∃ old, e.books[kw.1]? = some old ∧ Commits origin kw.1 old kw.2 t := by
      intro kw hkw
      refine (commitWork_meets origin e.books kw).mono ?_ fun _ ht => ht
      rintro h (rfl | hunfit)
      · exact .inr (.inl rfl)
      · exact .inr (.inr
          ⟨kw.1, kw.2, Std.ExtTreeMap.mem_toList_iff_getElem?_eq_some.mp hkw, hunfit⟩)
    refine (Except.meets_mapM hall).bind ?_
    intro transitions _ ht
    exact ⟨rfl, ht, rfl, rfl⟩
  · simp only [checkedAdd, hseq, if_false, okOr, Except.error_bind]
    exact .inl rfl

namespace CommitSpec

variable {origin : CutOrigin} {events : List MarketRecord} {controls : List ControlRecord}
  {staged : Staged} {e' : RiskEngine} {cut : RiskCut}

/-- A commit touches the books and the sequence only. -/
theorem frame (h : CommitSpec e origin events controls staged e' cut) :
    e'.plans = e.plans ∧ e'.epochs = e.epochs ∧ e'.blocked = e.blocked ∧
      e'.limits = e.limits ∧ e'.sequence = e.sequence + 1 := by
  have heng := h.engine
  exact ⟨by rw [heng], by rw [heng], by rw [heng], by rw [heng], by rw [heng]⟩

/-- Transitions are in key order, one for each staged key. -/
theorem keys (h : CommitSpec e origin events controls staged e' cut) :
    cut.bookTransitions.map (·.key) = staged.toList.map (·.1) := by
  rw [eq_comm, ← List.forall₂_eq_eq_eq, List.forall₂_map_left_iff, List.forall₂_map_right_iff]
  refine h.transitions.imp ?_
  rintro kw t ⟨_, _, ht⟩
  exact ht.key.symm

theorem keys_pairwise (h : CommitSpec e origin events controls staged e' cut) :
    cut.bookTransitions.Pairwise fun a b => a.key ≠ b.key := by
  have hd : (staged.toList.map (·.1)).Pairwise (· ≠ ·) := by
    refine List.pairwise_map.mpr ?_
    refine (Std.ExtTreeMap.distinct_keys_toList (t := staged)).imp ?_
    intro a b hab heq
    exact hab (by simp [heq])
  rw [← h.keys] at hd
  exact List.pairwise_map.mp hd

/-- A staged book has its transition, and the engine holds that transition's view. -/
theorem books_some (h : CommitSpec e origin events controls staged e' cut) {k : BookKey}
    {w : Work} (hw : staged[k]? = some w) :
    ∃ old t, e.books[k]? = some old ∧ t ∈ cut.bookTransitions ∧ Commits origin k old w t ∧
      e'.books[k]? = some t.view := by
  have hmem : (k, w) ∈ staged.toList := Std.ExtTreeMap.mem_toList_iff_getElem?_eq_some.mpr hw
  obtain ⟨t, ht, old, hold, hcommit⟩ := h.transitions.exists_of_mem_left hmem
  refine ⟨old, t, hold, ht, hcommit, ?_⟩
  have hkey : t.key = k := hcommit.key
  rw [h.books, ← hkey]
  exact Std.ExtTreeMap.getElem?_foldl_insert_of_mem h.keys_pairwise ht

/-- A book that is not staged keeps its view. -/
theorem books_none (h : CommitSpec e origin events controls staged e' cut) {k : BookKey}
    (hk : staged[k]? = none) : e'.books[k]? = e.books[k]? := by
  rw [h.books]
  refine Std.ExtTreeMap.getElem?_foldl_insert_of_notMem ?_
  intro t ht heq
  have hmem : t.key ∈ cut.bookTransitions.map (·.key) := List.mem_map_of_mem ht
  rw [h.keys, heq] at hmem
  obtain ⟨kw, hkw, rfl⟩ := List.mem_map.mp hmem
  rw [Std.ExtTreeMap.mem_toList_iff_getElem?_eq_some.mp hkw] at hk
  cases hk

end CommitSpec

/-! ## Groups -/

/-- What an accepted group does: every planned book makes its run, and the end of the runs is
    committed. -/
structure GroupSpec (e : RiskEngine) (g : AtomicGroup) (e' : RiskEngine) (cut : RiskCut)
    (s : GroupState) : Prop where
  planned : ∀ k ∈ s.staged, k ∈ e.plans
  runs : ∀ k plan view, e.plans[k]? = some plan → e.books[k]? = some view →
    bookRun e plan view (plan.groupStimuli k g) ⟨e.epochs[plan.lane]?, none⟩ =
      .ok (s.book k plan)
  commits : CommitSpec { e with epochs := s.epochs }
    (.group g.pin g.first g.last g.visibleNs) (s.events.map (finalDisposition s.staged))
    s.controls s.staged e' cut

/-- How a group can fail. -/
inductive GroupHalts (e : RiskEngine) (g : AtomicGroup) : Halt → Prop where
  | epoch (h : ∃ d ∈ g.deliveries, d.connectionEpoch = none) :
    GroupHalts e g (.err "missing source epoch")
  | run {halt : Halt} (k : BookKey) (plan : BookPlan) (view : BookView)
    (hplan : e.plans[k]? = some plan) (hview : e.books[k]? = some view)
    (h : bookRun e plan view (plan.groupStimuli k g) ⟨e.epochs[plan.lane]?, none⟩ =
      .error halt) : GroupHalts e g halt
  | sequence : GroupHalts e g (.err "cut sequence overflow")
  | revision : GroupHalts e g (.err "book revision overflow")
  | unfit {halt : Halt} (k : BookKey) (plan : BookPlan) (view : BookView) (s : BookState)
    (w : Work) (hplan : e.plans[k]? = some plan) (hview : e.books[k]? = some view)
    (h : bookRun e plan view (plan.groupStimuli k g) ⟨e.epochs[plan.lane]?, none⟩ = .ok s)
    (hs : s.staged = some w) (hw : Unfit e.books k w) : GroupHalts e g halt

theorem group_meets (hc : e.Closed) (g : AtomicGroup) :
    (e.group g).Meets (GroupHalts e g) (fun r => ∃ s, GroupSpec e g r.1 r.2 s) := by
  unfold group
  have hloop := group_follows hc g
  cases hx : g.deliveries.foldlM (e.deliver g.pin) ⟨e.epochs, ∅, [], []⟩ with
  | error h =>
    rcases hloop.of_error hx with ⟨hnone, rfl⟩ | ⟨k, plan, view, hplan, hview, hrun⟩
    · exact .epoch hnone
    · exact .run k plan view hplan hview (by simpa [GroupState.book] using hrun)
  | ok s =>
    obtain ⟨hdom, hrun⟩ := hloop.of_ok hx
    have hruns : ∀ k plan view, e.plans[k]? = some plan → e.books[k]? = some view →
        bookRun e plan view (plan.groupStimuli k g) ⟨e.epochs[plan.lane]?, none⟩ =
          .ok (s.book k plan) := by
      intro k plan view hplan hview
      simpa [GroupState.book] using hrun k plan view hplan hview
    refine (commit_meets _ _ _ s.staged).mono ?_ ?_
    · rintro h (rfl | rfl | ⟨k, w, hw, hunfit⟩)
      · exact .sequence
      · exact .revision
      · have hk : k ∈ e.plans :=
          hdom k (Std.ExtTreeMap.mem_iff_isSome_getElem?.mpr (by simp [hw]))
        have hplan : e.plans[k]? = some e.plans[k] := by simp [hk]
        obtain ⟨view, hview⟩ := hc.exists_view hplan
        exact .unfit k _ _ _ w hplan hview (hruns k _ _ hplan hview) hw hunfit
    · intro r hr
      exact ⟨s, hdom, hruns, hr⟩

/-- After a group, a planned book's view is the end of its run, under a new revision if it was
    staged at all. -/
theorem GroupSpec.view_eq {g : AtomicGroup} {e' : RiskEngine} {cut : RiskCut} {s : GroupState}
    (h : GroupSpec e g e' cut s) {k : BookKey} (plan : BookPlan) {view : BookView}
    (hview : e.books[k]? = some view) :
    ∃ view', e'.books[k]? = some view' ∧
      view'.validity = ((s.book k plan).work view).view.validity ∧
      view'.ladder = ((s.book k plan).work view).view.ladder ∧
      view'.dependency = ((s.book k plan).work view).view.dependency := by
  cases hstaged : s.staged[k]? with
  | none =>
    refine ⟨view, ?_, ?_⟩
    · rw [h.commits.books_none hstaged, hview]
    · simp [GroupState.book, BookState.work, hstaged, Work.new]
  | some w =>
    obtain ⟨old, t, _, _, hcommits, hnew⟩ := h.commits.books_some hstaged
    refine ⟨t.view, hnew, ?_⟩
    simp [hcommits.view, GroupState.book, BookState.work, hstaged]

/-! ## The market events of a cut -/

/-- A market event and where it came from, without its disposition. -/
def MarketRecord.source (r : MarketRecord) : Reference × MarketEvent := (r.reference, r.event)

theorem map_source_setLastDisposition (events : List MarketRecord) (d : Disposition) :
    (setLastDisposition events d).map MarketRecord.source = events.map MarketRecord.source := by
  unfold setLastDisposition
  cases events using List.reverseRecOn with
  | nil => rfl
  | append_singleton events r => simp [List.modifyLast_concat, MarketRecord.source]

/-- One record adds its market event, if it has one. -/
theorem record_events {pin : DerivativePin} {d : FilteredDelivery} {epoch : String}
    {s s' : GroupState} {r : SegmentRecord} (h : e.record pin d epoch s r = .ok s') :
    s'.events.map MarketRecord.source = s.events.map MarketRecord.source ++
      (market d.duplicate (Reference.new pin r.header) r.event).map MarketRecord.source := by
  rw [← List.map_append]
  unfold record at h
  split at h
  · obtain rfl := Except.ok.inj h
    rfl
  · unfold recordEvent at h
    split at h
    · -- the book arm rewrites the disposition of the event it just pushed
      unfold bookEvent at h
      split at h
      · obtain rfl := Except.ok.inj h
        exact map_source_setLastDisposition _ _
      · obtain ⟨w, _, h⟩ := Except.bind_eq_ok.mp h
        obtain ⟨w', _, h⟩ := Except.bind_eq_ok.mp h
        obtain rfl := Except.ok.inj h
        exact map_source_setLastDisposition _ _
    · split at h
      · obtain rfl := Except.ok.inj h
        rfl
      · obtain ⟨staged, _, h⟩ := Except.bind_eq_ok.mp h
        obtain rfl := Except.ok.inj h
        rfl
    · split at h
      · obtain rfl := Except.ok.inj h
        rfl
      · split at h
        · obtain rfl := Except.ok.inj h
          rfl
        · obtain ⟨staged, _, h⟩ := Except.bind_eq_ok.mp h
          obtain rfl := Except.ok.inj h
          rfl
    · obtain rfl := Except.ok.inj h
      rfl
    · obtain rfl := Except.ok.inj h
      rfl

/-- The source half of a delivery adds no market event. -/
theorem source_events {d : FilteredDelivery} {epoch : String} {s s' : GroupState}
    (h : e.source d epoch s = .ok s') : s'.events = s.events := by
  by_cases hskip : (d.duplicate || (e.relevant d.lane).isEmpty) = true
  · simp only [source, hskip, if_true] at h
    obtain rfl := Except.ok.inj h
    rfl
  · rw [source_eq d epoch s hskip] at h
    obtain ⟨_, _, h⟩ := Except.bind_eq_ok.mp h
    obtain ⟨_, _, h⟩ := Except.bind_eq_ok.mp h
    obtain rfl := Except.ok.inj h
    rfl

/-- The market events of one delivery, in record order. -/
def deliveryMarket (pin : DerivativePin) (d : FilteredDelivery) :
    List (Reference × MarketEvent) :=
  d.records.flatMap fun r =>
    (market d.duplicate (Reference.new pin r.header) r.event).map MarketRecord.source

theorem deliver_events {pin : DerivativePin} {d : FilteredDelivery} {s s' : GroupState}
    (h : e.deliver pin s d = .ok s') :
    s'.events.map MarketRecord.source =
      s.events.map MarketRecord.source ++ deliveryMarket pin d := by
  obtain ⟨epoch, _, h⟩ := Except.bind_eq_ok.mp h
  obtain ⟨s₁, hsource, h⟩ := Except.bind_eq_ok.mp h
  refine List.foldlM_prefix_inv (fun done (t : GroupState) =>
    t.events.map MarketRecord.source = s.events.map MarketRecord.source ++
      done.flatMap fun r =>
        (market d.duplicate (Reference.new pin r.header) r.event).map MarketRecord.source) h ?_ ?_
  · simp [source_events hsource]
  · intro done r _ t t' _ _ ht hstep
    rw [record_events hstep, ht]
    simp

/-- A cut lists the market events of its group, all of them and in order. -/
theorem GroupSpec.market_eq {g : AtomicGroup} {e' : RiskEngine} {cut : RiskCut}
    (h : e.group g = .ok (e', cut)) :
    cut.marketEvents.map MarketRecord.source =
      g.deliveries.flatMap (deliveryMarket g.pin) := by
  obtain ⟨s, hloop, hcommit⟩ := Except.bind_eq_ok.mp h
  have hevents : s.events.map MarketRecord.source = g.deliveries.flatMap (deliveryMarket g.pin) := by
    refine List.foldlM_prefix_inv (fun done (t : GroupState) =>
      t.events.map MarketRecord.source = done.flatMap (deliveryMarket g.pin)) hloop rfl ?_
    intro done d _ t t' _ _ ht hstep
    rw [deliver_events hstep, ht]
    simp
  have hcontent : cut.marketEvents = s.events.map (finalDisposition s.staged) := by
    have hspec := (commit_meets _ _ _ s.staged).of_ok hcommit
    exact congrArg RiskCut.marketEvents hspec.content
  rw [hcontent, ← hevents, List.map_map]
  refine List.map_congr_left ?_
  intro r _
  unfold finalDisposition
  simp only [Function.comp_apply]
  split
  · split <;> rfl
  · rfl

/-! ## Window statuses -/

/-- Why the coverage of a window blocks a lane: its first fault, else its state. -/
def blockReason (c : CoverageEvidence) (lane : LaneId) : Option Reason :=
  match c.faults.find? (·.lane = lane) with
  | some f => some (.interval f.reason)
  | none => laneReason (c.lane lane)

theorem getElem?_block (c : CoverageEvidence) (m : Std.ExtTreeMap LaneId Reason) (p : BookPlan)
    (lane : LaneId) :
    (block c m p)[lane]? = if p.lane = lane then (blockReason c lane).or m[lane]? else m[lane]? := by
  unfold block blockReason
  by_cases hlane : p.lane = lane
  · subst hlane
    cases c.faults.find? (·.lane = p.lane) <;> cases laneReason (c.lane p.lane) <;> simp
  · cases c.faults.find? (·.lane = p.lane) <;> cases laneReason (c.lane p.lane) <;>
      simp [hlane, Std.ExtTreeMap.getElem?_insert]

/-- The blocked lanes of a window are the planned lanes that its coverage blocks. -/
theorem getElem?_foldl_block (c : CoverageEvidence) (l : List BookPlan)
    (m : Std.ExtTreeMap LaneId Reason) (lane : LaneId) :
    (l.foldl (block c) m)[lane]? =
      if ∃ p ∈ l, p.lane = lane then (blockReason c lane).or m[lane]? else m[lane]? := by
  induction l generalizing m with
  | nil => simp
  | cons p l ih =>
    rw [List.foldl_cons, ih, getElem?_block]
    by_cases hp : p.lane = lane <;> by_cases hl : ∃ q ∈ l, q.lane = lane <;>
      cases blockReason c lane <;> simp [hp, hl]

/-- The lanes a window status blocks. -/
def blockedBy (e : RiskEngine) (c : CoverageEvidence) : Std.ExtTreeMap LaneId Reason :=
  (e.plans.toList.map (·.2)).foldl (block c) ∅

theorem getElem?_blockedBy {k : BookKey} {plan : BookPlan} (hplan : e.plans[k]? = some plan)
    (c : CoverageEvidence) : (e.blockedBy c)[plan.lane]? = blockReason c plan.lane := by
  have hmem : ∃ p ∈ e.plans.toList.map (·.2), p.lane = plan.lane := by
    refine ⟨plan, List.mem_map.mpr ⟨(k, plan), ?_, rfl⟩, rfl⟩
    exact Std.ExtTreeMap.mem_toList_iff_getElem?_eq_some.mpr hplan
  rw [blockedBy, getElem?_foldl_block, if_pos hmem]
  simp

/-- The stage loop fails the books of blocked lanes. -/
theorem stageBlocked_spec {books : Std.ExtTreeMap BookKey BookView}
    (blocked : Std.ExtTreeMap LaneId Reason) {l : List (BookKey × BookPlan)}
    (hl : ∀ kp ∈ l, kp.1 ∈ books) (staged : Staged) :
    ∃ staged', l.foldlM (stageBlocked books blocked) staged = .ok staged' ∧
      (∀ k, (∀ plan, (k, plan) ∈ l → blocked[plan.lane]? = none) → staged'[k]? = staged[k]?) ∧
      (∀ k plan view reason, (k, plan) ∈ l → (∀ q, (k, q) ∈ l → q = plan) →
        books[k]? = some view → blocked[plan.lane]? = some reason →
          staged'[k]? = some (Work.invalid view reason)) := by
  induction l generalizing staged with
  | nil => exact ⟨staged, rfl, fun _ _ => rfl, by simp⟩
  | cons kp l ih =>
    have hl' : ∀ kp ∈ l, kp.1 ∈ books := fun q hq => hl q (by simp [hq])
    cases hblock : blocked[kp.2.lane]? with
    | none =>
      obtain ⟨staged', hrun, hnone, hsome⟩ := ih hl' staged
      refine ⟨staged', ?_, ?_, ?_⟩
      · rw [List.foldlM_cons, stageBlocked, hblock]
        exact hrun
      · intro k hk
        exact hnone k fun plan hmem => hk plan (by simp [hmem])
      · intro k plan view reason hmem huniq hview hreason
        rcases List.mem_cons.mp hmem with rfl | hmem
        · rw [hblock] at hreason
          cases hreason
        · exact hsome k plan view reason hmem (fun q hq => huniq q (by simp [hq])) hview hreason
    | some reason₀ =>
      obtain ⟨view₀, hview₀⟩ : ∃ view, books[kp.1]? = some view := by
        have := hl kp (by simp)
        exact ⟨books[kp.1], by simp [this]⟩
      obtain ⟨staged', hrun, hnone, hsome⟩ :=
        ih hl' (staged.insert kp.1 (Work.invalid view₀ reason₀))
      refine ⟨staged', ?_, ?_, ?_⟩
      · rw [List.foldlM_cons, stageBlocked, hblock, hview₀]
        exact hrun
      · intro k hk
        rw [hnone k fun plan hmem => hk plan (by simp [hmem]), Std.ExtTreeMap.getElem?_insert]
        have hne : kp.1 ≠ k := by
          rintro rfl
          have := hk kp.2 (by simp)
          rw [hblock] at this
          cases this
        simp [hne]
      · intro k plan view reason hmem huniq hview hreason
        by_cases hin : (k, plan) ∈ l
        · exact hsome k plan view reason hin (fun q hq => huniq q (by simp [hq])) hview hreason
        · -- the last entry of this key is the one just staged
          obtain rfl : (k, plan) = kp := by simpa [hin] using hmem
          rw [hnone k fun q hq => absurd (huniq q (by simp [hq]) ▸ hq) hin]
          simp_all

/-- What an accepted window status does: lanes are blocked as its coverage says, and the books
    of blocked lanes are failed. -/
structure WindowSpec (e : RiskEngine) (status : WindowStatus) (e' : RiskEngine) (cut : RiskCut)
    (c : CoverageEvidence) (staged : Staged) : Prop where
  coverage : status.coverage = some c
  planned : ∀ k ∈ staged, k ∈ e.plans
  staged_eq : ∀ (k : BookKey) (plan : BookPlan) (view : BookView), e.plans[k]? = some plan → e.books[k]? = some view →
    staged[k]? = (blockReason c plan.lane).map (Work.invalid view)
  commits : CommitSpec { e with blocked := e.blockedBy c }
    (.window status.pin status.effectiveStartNs status.effectiveEndNs) [] [] staged e' cut

/-- How a window status can fail. -/
inductive WindowHalts : Halt → Prop where
  | evidence : WindowHalts (.err "missing source evidence")
  | sequence : WindowHalts (.err "cut sequence overflow")
  | revision : WindowHalts (.err "book revision overflow")

theorem Work.invalid_view (view : BookView) (reason : Reason) :
    (Work.invalid view reason).view =
      { view with validity := .unusable reason, ladder := none, dependency := none } := rfl

theorem window_meets (hc : e.Closed) (status : WindowStatus) :
    (e.window status).Meets WindowHalts
      (fun r => ∃ c staged, WindowSpec e status r.1 r.2 c staged) := by
  unfold window
  cases hcov : status.coverage with
  | none => exact .evidence
  | some c =>
    have hbooks : ∀ kp ∈ e.plans.toList, kp.1 ∈ e.books := by
      intro kp hkp
      rw [hc, Std.ExtTreeMap.mem_iff_isSome_getElem?,
        Std.ExtTreeMap.mem_toList_iff_getElem?_eq_some.mp hkp]
      rfl
    obtain ⟨staged, hrun, hnone, hsome⟩ := stageBlocked_spec (e.blockedBy c) hbooks ∅
    have hget : ∀ (k : BookKey) (plan : BookPlan) (view : BookView), e.plans[k]? = some plan → e.books[k]? = some view →
        staged[k]? = (blockReason c plan.lane).map (Work.invalid view) := by
      intro k plan view hplan hview
      have huniq : ∀ q, (k, q) ∈ e.plans.toList → q = plan := by
        intro q hq
        have := Std.ExtTreeMap.mem_toList_iff_getElem?_eq_some.mp hq
        simpa [hplan, eq_comm] using this
      have hblocked := getElem?_blockedBy hplan c
      cases hreason : blockReason c plan.lane with
      | none =>
        rw [hnone k fun q hq => by rw [huniq q hq, hblocked, hreason]]
        simp
      | some reason =>
        exact hsome k plan view reason (Std.ExtTreeMap.mem_toList_iff_getElem?_eq_some.mpr hplan)
          huniq hview (by rw [hblocked, hreason])
    have hdom : ∀ k ∈ staged, k ∈ e.plans := by
      intro k hk
      by_contra hnot
      have hstaged := hnone k ?_
      · rw [Std.ExtTreeMap.mem_iff_isSome_getElem?, hstaged] at hk
        simp at hk
      · intro plan hmem
        have hplan := Std.ExtTreeMap.mem_toList_iff_getElem?_eq_some.mp hmem
        exact absurd (Std.ExtTreeMap.mem_iff_isSome_getElem?.mpr (by simp [hplan])) hnot
    simp only [okOr, Except.ok_bind]
    rw [blockedBy] at hrun
    rw [hrun]
    refine (commit_meets _ _ _ staged).mono ?_ ?_
    · rintro h (rfl | rfl | ⟨k, w, hw, hunfit⟩)
      · exact .sequence
      · exact .revision
      · exfalso
        -- staged work was failed, so it can be committed
        have hk : k ∈ e.plans :=
          hdom k (Std.ExtTreeMap.mem_iff_isSome_getElem?.mpr (by simp [hw]))
        have hplan : e.plans[k]? = some e.plans[k] := by simp [hk]
        obtain ⟨view, hview⟩ := hc.exists_view hplan
        rw [hget k _ _ hplan hview] at hw
        obtain ⟨reason, _, rfl⟩ := Option.map_eq_some_iff.mp hw
        rcases hunfit with hn | hn | ⟨hn, _⟩
        · rw [hview] at hn
          cases hn
        · rw [Work.invalid_view] at hn
          cases hn
        · rw [Work.invalid_view] at hn
          cases hn
    · intro r hr
      exact ⟨c, staged, hcov, hdom, hget, hr⟩

end RiskEngine

end PredictionIndexer.Engine
