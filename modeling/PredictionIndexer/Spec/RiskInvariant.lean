import PredictionIndexer.Spec.RiskCommit

/-!
# Representation invariant of the risk engine

A planned book is usable exactly when it holds a ladder, exactly when it has a continuity
dependency; its ladder is within the plan's price range, the quantity range and the level
limit; and its dependency is on the current epoch of its lane. The invariant is proved for the
machine of one book (`act_ok`), carried through a group by the runs of the machines, and then
through every reachable engine. It is what makes the unwraps of `apply` and `commit` safe.

Key results:
- `deliveryRun_ok` — one delivery keeps a book's state well formed
- `nextInner_ok` — one accepted item keeps the engine well formed, and no item panics
- `Reachable.ok` — every reachable engine is well formed
-/

namespace PredictionIndexer.Engine

open Fallible

/-! ## Well-formed views and work -/

/-- A price within the plan's scale, a positive quantity within the signed 64-bit width. -/
def LevelOk (plan : BookPlan) (p : Int) (q : Nat) : Prop :=
  1 ≤ q ∧ q ≤ maxQuantityAtoms ∧ 0 ≤ p ∧ p ≤ 10 ^ plan.priceScale.exponent

def SideOk (plan : BookPlan) (m : Std.ExtTreeMap Int Nat) : Prop :=
  ∀ (p : Int) (q : Nat), m[p]? = some q → LevelOk plan p q

def LadderOk (plan : BookPlan) (l : Ladder) : Prop := ∀ side, SideOk plan (l.side side)

/-- A view is usable with a ladder and a dependency on the lane's epoch, or it has neither. -/
structure ViewShape (plan : BookPlan) (epoch : Option String) (v : BookView) : Prop where
  ladder_iff : v.validity = .usable ↔ v.ladder.isSome
  dependency_iff : v.validity = .usable ↔ v.dependency.isSome
  ladder : ∀ l, v.ladder = some l → LadderOk plan l
  epoch : ∀ d, v.dependency = some d → epoch = some d.epoch

/-- The same, with the level limit that is checked after each applied event. -/
structure ViewOk (limits : RiskLimits) (plan : BookPlan) (epoch : Option String)
    (v : BookView) : Prop extends ViewShape plan epoch v where
  levels : ∀ l, v.ladder = some l → l.levels ≤ limits.maxLevelsPerBook

structure WorkOk (limits : RiskLimits) (plan : BookPlan) (epoch : Option String) (w : Work) :
    Prop where
  view : ViewOk limits plan epoch w.view
  latched : w.latched = true → ∃ reason, w.view.validity = .unusable reason

/-- The state of a book's machine: its work is well formed, and staged work is decided. -/
structure StateOk (limits : RiskLimits) (plan : BookPlan) (view : BookView) (s : BookState) :
    Prop where
  work : WorkOk limits plan s.epoch (s.work view)
  decided : ∀ w, s.staged = some w → w.view.validity ≠ .notInitialized

section

variable {limits : RiskLimits} {plan : BookPlan} {epoch : Option String} {view : BookView}
  {w : Work} {epoch₀ : String}

/-- A view without a ladder and a dependency is well formed under any epoch. -/
theorem ViewOk.of_not_usable (h : view.validity ≠ .usable) (hl : view.ladder = none)
    (hd : view.dependency = none) : ViewOk limits plan epoch view where
  ladder_iff := by simp [h, hl]
  dependency_iff := by simp [h, hd]
  ladder := by simp [hl]
  epoch := by simp [hd]
  levels := by simp [hl]

/-- The invariant does not read the revision and the origin of a view. -/
theorem ViewOk.committed (h : ViewOk limits plan epoch view) (revision : Nat)
    (asOf : Option CutOrigin) :
    ViewOk limits plan epoch { view with revision := revision, asOf := asOf } :=
  ⟨⟨h.ladder_iff, h.dependency_iff, h.ladder, h.epoch⟩, h.levels⟩

/-- A view that is not usable has nothing that an epoch could contradict. -/
theorem ViewOk.change_epoch (h : ViewOk limits plan epoch view) (hv : view.validity ≠ .usable)
    (epoch' : Option String) : ViewOk limits plan epoch' view where
  ladder_iff := h.ladder_iff
  dependency_iff := h.dependency_iff
  ladder := h.ladder
  levels := h.levels
  epoch := by
    intro d hd
    exact absurd (h.dependency_iff.mpr (by simp [hd])) hv

theorem WorkOk.new (h : ViewOk limits plan epoch view) : WorkOk limits plan epoch (Work.new view) :=
  ⟨h, by simp [Work.new]⟩

theorem Work.fail_validity (h : WorkOk limits plan epoch w) (reason : Reason) (latch : Bool) :
    ∃ r, (w.fail reason latch).view.validity = .unusable r := by
  unfold Work.fail
  cases hl : w.latched with
  | true => exact h.latched hl
  | false => exact ⟨reason, rfl⟩

/-- Failed work is well formed under any epoch. -/
theorem WorkOk.fail (h : WorkOk limits plan epoch w) (reason : Reason) (latch : Bool)
    (epoch' : Option String) : WorkOk limits plan epoch' (w.fail reason latch) := by
  obtain ⟨r, hr⟩ := Work.fail_validity h reason latch
  refine ⟨?_, fun _ => ⟨r, hr⟩⟩
  unfold Work.fail at hr ⊢
  cases hl : w.latched with
  | true =>
    simp only [hl, if_true] at hr ⊢
    exact h.view.change_epoch (by simp [hr]) epoch'
  | false => exact ViewOk.of_not_usable (by simp) rfl rfl

/-! ## Applying an event -/

/-- The map of a full book's side holds its levels. -/
theorem fullSide_ok {levels : List Level} {m : Std.ExtTreeMap Int Nat}
    (h : fullSide plan levels = .ok m) : SideOk plan m := by
  unfold fullSide at h
  refine List.foldlM_inv (SideOk plan) h (fun p q hq => by simp at hq) ?_
  intro m level m' _ hm hround p q hq
  unfold fullLevel at hround
  split at hround
  · cases hround
  · rename_i hscale
    obtain rfl := Except.ok.inj hround
    rw [Std.ExtTreeMap.getElem?_insert] at hq
    split at hq
    · rename_i heq
      obtain rfl := Std.LawfulEqCmp.eq_of_compare heq
      obtain rfl := Option.some.inj hq
      simp only [BookPlan.misscaled, Bool.or_eq_true, decide_eq_true_eq, not_or, ne_eq,
        not_not] at hscale
      refine ⟨level.quantity.atoms_pos, level.quantity.atoms_le, level.price.atoms_nonneg, ?_⟩
      rw [← hscale.1]
      exact level.price.atoms_le
    · exact hm p q hq

theorem applyFull_shape {v : BookView} {full : FullBook} {reference : Reference}
    {epoch : String} (h : applyFull view plan full reference epoch = .ok v) :
    ViewShape plan (some epoch) v ∧ v.validity = .usable := by
  obtain ⟨bids, asks, hbids, hasks, rfl⟩ := applyFull_eq_ok h
  refine ⟨⟨by simp, by simp, ?_, by simp⟩, rfl⟩
  intro l hl side
  obtain rfl := Option.some.inj hl
  cases side with
  | bid => exact fullSide_ok hbids
  | ask => exact fullSide_ok hasks

/-- A change leaves a quantity within the signed 64-bit width. -/
theorem LevelChange.new_le {change : LevelChange} {old new : Nat} (hold : old ≤ maxQuantityAtoms)
    (h : change.new old = .ok new) : new ≤ maxQuantityAtoms := by
  cases change with
  | delete =>
    obtain rfl := Except.ok.inj h
    exact Nat.zero_le _
  | set q =>
    obtain rfl := Except.ok.inj h
    exact q.atoms_le
  | increase q =>
    simp only [LevelChange.new] at h
    split at h
    · rename_i v hv
      obtain rfl := Except.ok.inj h
      exact of_decide_eq_true (Option.filter_eq_some_iff.mp hv).2
    · cases h
  | decrease q =>
    simp only [LevelChange.new] at h
    split at h
    · obtain rfl := Except.ok.inj h
      exact Nat.le_trans (Nat.sub_le _ _) hold
    · cases h

/-- One changed level keeps a side within its ranges. -/
theorem SideOk.setLevel {m : Std.ExtTreeMap Int Nat} (h : SideOk plan m) {p : Int}
    (hp : 0 ≤ p ∧ p ≤ 10 ^ plan.priceScale.exponent) {q : Nat} (hq : q ≤ maxQuantityAtoms) :
    SideOk plan (setLevel m p q) := by
  intro p' q' hget
  unfold Engine.setLevel at hget
  split at hget
  · rw [Std.ExtTreeMap.getElem?_erase] at hget
    split at hget
    · cases hget
    · exact h p' q' hget
  · rename_i hne
    rw [Std.ExtTreeMap.getElem?_insert] at hget
    split at hget
    · rename_i heq
      obtain rfl := Std.LawfulEqCmp.eq_of_compare heq
      obtain rfl := Option.some.inj hget
      exact ⟨Nat.one_le_iff_ne_zero.mpr hne, hq, hp.1, hp.2⟩
    · exact h p' q' hget

theorem LadderOk.setSide {l : Ladder} (h : LadderOk plan l) (side : Side)
    {m : Std.ExtTreeMap Int Nat} (hm : SideOk plan m) : LadderOk plan (l.setSide side m) := by
  intro side'
  cases side <;> cases side'
  · exact hm
  · exact h .ask
  · exact h .bid
  · exact hm

/-- Past its guards, the delta arm finds its ladder and its dependency. -/
theorem applyLevel_meets (h : ViewShape plan epoch view) (hv : view.validity = .usable)
    {delta : BookDelta} (hscale : delta.price.scale = plan.priceScale) (reference : Reference) :
    (applyLevel view delta reference).Meets (fun _ => False)
      (fun r => ∀ v, r = .ok v → ViewShape plan epoch v ∧ v.validity = .usable) := by
  obtain ⟨ladder, hladder⟩ := Option.isSome_iff_exists.mp (h.ladder_iff.mp hv)
  obtain ⟨dependency, hdep⟩ := Option.isSome_iff_exists.mp (h.dependency_iff.mp hv)
  have hok := h.ladder ladder hladder
  unfold applyLevel
  simp only [hladder, hdep, unwrap, Except.ok_bind]
  cases hnew : delta.change.new ((ladder.side delta.side)[delta.price.atoms]?.getD 0) with
  | error reason =>
    intro v hr
    cases hr
  | ok new =>
    intro v hr
    obtain rfl := Except.ok.inj hr
    refine ⟨⟨by simp [hv], by simp [hv], ?_, ?_⟩, hv⟩
    · intro l hl
      obtain rfl := Option.some.inj hl
      refine hok.setSide delta.side ((hok delta.side).setLevel ?_ ?_)
      · rw [← hscale]
        exact ⟨delta.price.atoms_nonneg, delta.price.atoms_le⟩
      · refine LevelChange.new_le ?_ hnew
        cases hold : (ladder.side delta.side)[delta.price.atoms]? with
        | none => exact Nat.zero_le _
        | some q => exact (hok delta.side _ q hold).2.1
    · intro d hd
      obtain rfl := Option.some.inj hd
      exact h.epoch dependency hdep

/-- An event applied under the lane's epoch leaves a usable, well-formed view, and applying
    never panics. -/
theorem apply_meets (h : ViewShape plan (some epoch₀) view) (book : BookEvent)
    (reference : Reference) :
    (apply view plan book reference epoch₀).Meets (fun _ => False)
      (fun r => ∀ v, r = .ok v → ViewShape plan (some epoch₀) v ∧ v.validity = .usable) := by
  cases book with
  | full full =>
    intro v hr
    exact applyFull_shape hr
  | delta delta =>
    simp only [apply, applyDelta]
    cases hv : view.validity with
    | notInitialized =>
      intro v hr
      cases hr
    | unusable reason =>
      intro v hr
      cases hr
    | usable =>
      simp only
      split
      · intro v hr
        cases hr
      · rename_i hscale
        split
        · intro v hr
          cases hr
        · exact applyLevel_meets h hv (by simpa using hscale) reference

/-! ## One book event on staged work -/

/-- The one error of the book arm. -/
def LimitHalt (h : Halt) : Prop := h = .err "risk level limit exceeded"

theorem oversized_meets {e : RiskEngine} (h : WorkOk limits plan epoch w) (book : BookEvent) :
    (e.oversized plan w book).Meets LimitHalt (WorkOk limits plan epoch) := by
  cases book with
  | delta delta => exact h
  | full full =>
    simp only [RiskEngine.oversized]
    split
    · exact h
    · split
      · split
        · exact h.fail .scaleMismatch true epoch
        · exact rfl
      · exact h

/-- Unlatched work takes the event or fails; either way its view is decided. -/
theorem applyWork_meets (h : WorkOk limits plan (some epoch₀) w) (book : BookEvent)
    (reference : Reference) :
    (RiskEngine.applyWork plan book reference epoch₀ w).Meets LimitHalt
      (fun w' => ViewShape plan (some epoch₀) w'.view ∧
        (w'.latched = true → ∃ reason, w'.view.validity = .unusable reason) ∧
        w'.view.validity ≠ .notInitialized) := by
  unfold RiskEngine.applyWork
  cases hl : w.latched with
  | true =>
    obtain ⟨reason, hr⟩ := h.latched hl
    exact ⟨h.view.toViewShape, h.latched, by simp [hr]⟩
  | false =>
    refine Except.Meets.bind ((apply_meets h.view.toViewShape book reference).mono
      (fun _ hf => hf.elim) fun _ ht => ht) ?_
    intro r _ hr
    cases r with
    | error reason =>
      obtain ⟨r, hv⟩ := Work.fail_validity h reason true
      exact ⟨(h.fail reason true _).view.toViewShape, fun _ => ⟨r, hv⟩, by simp [hv]⟩
    | ok v =>
      obtain ⟨hshape, hv⟩ := hr v rfl
      cases book with
      | delta delta => exact ⟨hshape, by simp, by simp [hv]⟩
      | full full => exact ⟨hshape, by simp, by simp [hv]⟩

/-- The block of a lane comes first. -/
theorem WorkOk.block {e : RiskEngine} (h : WorkOk e.limits plan (some epoch₀) w) (lane : LaneId) :
    WorkOk e.limits plan (some epoch₀)
      (match e.blocked[lane]? with | some reason => w.fail reason true | none => w) := by
  split
  · exact h.fail _ true _
  · exact h

theorem bookWork_meets {e : RiskEngine} (h : WorkOk e.limits plan (some epoch₀) w)
    (lane : LaneId) (book : BookEvent) (reference : Reference) :
    (e.bookWork plan lane book reference epoch₀ w).Meets LimitHalt
      (fun w' => WorkOk e.limits plan (some epoch₀) w' ∧ w'.view.validity ≠ .notInitialized) := by
  unfold RiskEngine.bookWork
  refine (oversized_meets (h.block lane) book).bind ?_
  intro w₁ _ h₁
  refine (applyWork_meets h₁ book reference).bind ?_
  rintro w₂ _ ⟨hshape, hlatched, hdecided⟩
  split
  · exact rfl
  · rename_i hlevels
    refine ⟨⟨⟨hshape, ?_⟩, hlatched⟩, hdecided⟩
    intro l hl
    simpa [hl] using hlevels

/-! ## One stimulus, one delivery -/

/-- Failing a book leaves its state well formed under any epoch. -/
theorem StateOk.fail {s : BookState} (h : StateOk limits plan view s) (reason : Reason)
    (latch : Bool) (epoch' : Option String) :
    StateOk limits plan view { s.fail view reason latch with epoch := epoch' } := by
  obtain ⟨r, hr⟩ := Work.fail_validity h.work reason latch
  refine ⟨h.work.fail reason latch epoch', ?_⟩
  intro w hw
  obtain rfl := Option.some.inj hw
  simp [hr]

/-- A state whose epoch is confirmed or was unknown stays well formed. -/
theorem StateOk.confirm {s : BookState} (h : StateOk limits plan view s)
    (hepoch : s.epoch.any (· ≠ epoch₀) = false) :
    StateOk limits plan view { s with epoch := some epoch₀ } := by
  refine ⟨⟨⟨⟨h.work.view.ladder_iff, h.work.view.dependency_iff, h.work.view.ladder, ?_⟩,
    h.work.view.levels⟩, h.work.latched⟩, h.decided⟩
  intro d hd
  rw [h.work.view.epoch d hd] at hepoch
  simp only [Option.any_some, ne_eq, decide_not, Bool.not_eq_eq_eq_not, Bool.not_false,
    decide_eq_true_eq] at hepoch
  rw [hepoch]

theorem source_ok {e : RiskEngine} {s s' : BookState} (h : StateOk limits plan view s)
    {verdict : ContinuityVerdict}
    (hact : Stimulus.act e plan view s (.source verdict epoch₀) = .ok s') :
    StateOk limits plan view s' ∧ s'.epoch = some epoch₀ := by
  obtain rfl := Except.ok.inj hact
  refine ⟨?_, rfl⟩
  by_cases hbroken : verdict.broken = true
  · by_cases hchanged : s.epoch.any (· ≠ epoch₀) = true
    · simp only [hbroken, hchanged, if_true]
      exact (h.fail .epochChanged false s.epoch).fail _ true _
    · simp only [hbroken, hchanged, if_true, Bool.false_eq_true, if_false]
      exact h.fail _ true _
  · by_cases hchanged : s.epoch.any (· ≠ epoch₀) = true
    · simp only [hbroken, hchanged, if_true, Bool.false_eq_true, if_false]
      exact h.fail _ false _
    · simp only [hbroken, hchanged, Bool.false_eq_true, if_false]
      exact h.confirm (by simpa using hchanged)

/-- Every stimulus of a record keeps the state well formed under the delivery's epoch. -/
theorem eventStimuli_ok {e : RiskEngine} {s : BookState} {k : BookKey} {reference : Reference}
    {event : SegmentEvent} (h : StateOk e.limits plan view s) (hs : s.epoch = some epoch₀) :
    (bookRun e plan view (plan.eventStimuli k reference epoch₀ event) s).Meets LimitHalt
      (fun s' => StateOk e.limits plan view s' ∧ s'.epoch = some epoch₀) := by
  refine Except.meets_foldlM (P := fun s' => StateOk e.limits plan view s' ∧
    s'.epoch = some epoch₀) ⟨h, hs⟩ ?_
  rintro stimulus hmem t ⟨ht, hepoch⟩
  rcases BookPlan.mem_eventStimuli.mp hmem with
    ⟨b, _, _, rfl⟩ | ⟨_, _, _, rfl⟩ | ⟨_, reason, latch, _, _, rfl⟩
  · have hwork : WorkOk e.limits plan (some epoch₀) (t.work view) := hepoch ▸ ht.work
    refine (bookWork_meets hwork plan.lane b reference).bind ?_
    rintro w _ ⟨hw, hdecided⟩
    refine ⟨⟨?_, ?_⟩, hepoch⟩
    · rw [show BookState.epoch _ = some epoch₀ from hepoch]
      exact hw
    · intro w' hw'
      obtain rfl := Option.some.inj hw'
      exact hdecided
  · exact ⟨ht.fail _ true t.epoch, hepoch⟩
  · exact ⟨ht.fail reason latch t.epoch, hepoch⟩

/-- One delivery keeps a book's state well formed. -/
theorem deliveryRun_ok {e : RiskEngine} {s : BookState} {k : BookKey} {pin : DerivativePin}
    (d : FilteredDelivery) (h : StateOk e.limits plan view s) :
    (bookRun e plan view (plan.deliveryStimuli k pin d) s).Meets LimitHalt
      (StateOk e.limits plan view) := by
  cases hheeds : plan.heeds d with
  | false =>
    rw [BookPlan.deliveryStimuli_of_not_heeds hheeds]
    exact h
  | true =>
    simp only [BookPlan.deliveryStimuli_of_heeds hheeds, bookRun, List.foldlM_cons,
      List.foldlM_flatMap_eq]
    cases hact : Stimulus.act e plan view s (.source d.header.continuity
        (d.connectionEpoch.getD "")) with
    | error halt => cases hact
    | ok s₁ =>
      -- the source step set the epoch that every record of the delivery carries
      refine Except.Meets.mono (Except.meets_foldlM (P := fun t => StateOk e.limits plan view t ∧
        t.epoch = some (d.connectionEpoch.getD "")) (source_ok h hact) ?_) (fun _ ha => ha)
        fun _ ha => ha.1
      rintro r _ t ⟨ht, hepoch⟩
      exact eventStimuli_ok ht hepoch

/-- A whole group keeps a book's state well formed. -/
theorem groupRun_ok {e : RiskEngine} {k : BookKey} (g : AtomicGroup) {s : BookState}
    (h : StateOk e.limits plan view s) :
    (bookRun e plan view (plan.groupStimuli k g) s).Meets LimitHalt
      (StateOk e.limits plan view) := by
  unfold BookPlan.groupStimuli bookRun
  rw [List.foldlM_flatMap_eq]
  refine Except.meets_foldlM h ?_
  intro d _ t ht
  exact deliveryRun_ok d ht

end

/-! ## The engine -/

namespace RiskEngine

variable {e e' : RiskEngine}

/-- Every planned book has a well-formed view, and there are no others. -/
structure Ok (e : RiskEngine) : Prop where
  closed : e.Closed
  view : ∀ (k : BookKey) (plan : BookPlan) (view : BookView), e.plans[k]? = some plan →
    e.books[k]? = some view → ViewOk e.limits plan e.epochs[plan.lane]? view

/-- How an accepted engine may still refuse an item: never by a failed unwrap, never with an
    uninitialized transition. -/
def Orderly (h : Halt) : Prop :=
  h ≠ .panic ∧ h ≠ .err "internal uninitialized transition"

/-- Committing keeps the key set: staged books are planned books. -/
theorem CommitSpec.closed {origin : CutOrigin} {events : List MarketRecord}
    {controls : List ControlRecord} {staged : Staged} {cut : RiskCut}
    (h : CommitSpec e origin events controls staged e' cut) (hc : e.Closed)
    (hs : ∀ k ∈ staged, k ∈ e.plans) : e'.Closed := by
  intro k
  rw [h.engine]
  show k ∈ e'.books ↔ k ∈ e.plans
  cases hk : staged[k]? with
  | none => rw [← hc k, Std.ExtTreeMap.mem_iff_isSome_getElem?, h.books_none hk,
      Std.ExtTreeMap.mem_iff_isSome_getElem?]
  | some w =>
    obtain ⟨old, t, _, _, _, hview⟩ := h.books_some hk
    have hplan : k ∈ e.plans := hs k (Std.ExtTreeMap.mem_iff_isSome_getElem?.mpr (by simp [hk]))
    simp [Std.ExtTreeMap.mem_iff_isSome_getElem?, hview, hplan]

theorem group_ok (h : e.Ok) (g : AtomicGroup) :
    (e.group g).Meets Orderly (fun r => r.1.Ok) := by
  -- every book starts the group from its committed view
  have hstart : ∀ (k : BookKey) (plan : BookPlan) (view : BookView), e.plans[k]? = some plan →
      e.books[k]? = some view →
      StateOk e.limits plan view ⟨e.epochs[plan.lane]?, none⟩ := by
    intro k plan view hplan hview
    exact ⟨WorkOk.new (h.view k plan view hplan hview), by simp⟩
  refine (group_meets h.closed g).mono ?_ ?_
  · rintro halt (_ | ⟨k, plan, view, hplan, hview, hrun⟩ | _ | _ |
      ⟨k, plan, view, s, w, hplan, hview, hrun, hs, hunfit⟩)
    · simp [Orderly]
    · have := (groupRun_ok g (hstart k plan view hplan hview)).of_error hrun
      simp [Orderly, LimitHalt] at this ⊢
      simp [this]
    · simp [Orderly]
    · simp [Orderly]
    · exfalso
      have hok := (groupRun_ok g (hstart k plan view hplan hview)).of_ok hrun
      rcases hunfit with hnone | hv | ⟨hv, hl⟩
      · rw [hview] at hnone
        cases hnone
      · exact hok.decided w hs hv
      · have hw : s.work view = w := by simp [BookState.work, hs]
        have := hok.work.view.ladder_iff.mp (hw ▸ hv)
        rw [hw, hl] at this
        cases this
  · rintro ⟨e', cut⟩ ⟨s, hspec⟩
    refine ⟨hspec.commits.closed h.closed hspec.planned, ?_⟩
    intro k plan view' hplan hview'
    obtain ⟨hplans, hepochs, -, hlimits, -⟩ := hspec.commits.frame
    rw [hplans] at hplan
    rw [hepochs, hlimits]
    obtain ⟨view, hview⟩ := h.closed.exists_view hplan
    have hok := (groupRun_ok g (hstart k plan _ hplan hview)).of_ok
      (hspec.runs k plan _ hplan hview)
    -- the committed view is the staged one, or the old one under the group's last epoch
    cases hstaged : s.staged[k]? with
    | none =>
      rw [hspec.commits.books_none hstaged, hview] at hview'
      obtain rfl := Option.some.inj hview'
      simpa [GroupState.book, BookState.work, hstaged, Work.new] using hok.work.view
    | some w =>
      obtain ⟨old, t, hold, _, hcommits, hnew⟩ := hspec.commits.books_some hstaged
      rw [hnew] at hview'
      obtain rfl := Option.some.inj hview'
      rw [hcommits.view]
      refine ViewOk.committed ?_ _ _
      simpa [GroupState.book, BookState.work, hstaged] using hok.work.view

theorem window_ok (h : e.Ok) (status : WindowStatus) :
    (e.window status).Meets Orderly (fun r => r.1.Ok) := by
  refine (window_meets h.closed status).mono ?_ ?_
  · rintro halt (_ | _ | _) <;> simp [Orderly]
  · rintro ⟨e', cut⟩ ⟨c, staged, hspec⟩
    refine ⟨hspec.commits.closed h.closed hspec.planned, ?_⟩
    intro k plan view' hplan hview'
    obtain ⟨hplans, hepochs, -, hlimits, -⟩ := hspec.commits.frame
    rw [hplans] at hplan
    rw [hepochs, hlimits]
    obtain ⟨view, hview⟩ := h.closed.exists_view hplan
    have hstaged := hspec.staged_eq k plan _ hplan hview
    cases hreason : blockReason c plan.lane with
    | none =>
      rw [hreason] at hstaged
      rw [hspec.commits.books_none hstaged] at hview'
      exact h.view k plan view' hplan hview'
    | some reason =>
      rw [hreason] at hstaged
      obtain ⟨old, t, hold, _, hcommits, hnew⟩ := hspec.commits.books_some hstaged
      rw [hnew] at hview'
      obtain rfl := Option.some.inj hview'
      rw [hcommits.view]
      refine ViewOk.committed ?_ _ _
      exact ViewOk.of_not_usable (by simp [Work.invalid_view]) rfl rfl

/-- One accepted item keeps the engine well formed; no item panics. -/
theorem nextInner_ok (h : e.Ok) (item : WalkItem) :
    (e.nextInner item).Meets Orderly (fun r => r.1.Ok) := by
  cases item with
  | windowStatus status => exact window_ok h status
  | group g => exact group_ok h g

/-! ## Reachable engines -/

/-- What a freshly opened engine is. -/
structure OpenSpec (limits : RiskLimits) (e : RiskEngine) : Prop where
  books : e.books = e.plans.map fun _ _ => BookView.initial
  epochs : e.epochs = ∅
  blocked : e.blocked = ∅
  limits : e.limits = limits
  sequence : e.sequence = 0
  plans : ∀ (k : BookKey) (plan : BookPlan), e.plans[k]? = some plan →
    plan.key = k ∧ k.instrument.venue = plan.venue

theorem openPlans_spec {plans : List BookPlan} {limits : RiskLimits}
    (h : openPlans plans limits = .ok e) : OpenSpec limits e := by
  unfold openPlans at h
  split at h
  · cases h
  · obtain ⟨⟨bytes, map⟩, hloop, h⟩ := Except.bind_eq_ok.mp h
    obtain rfl := Except.ok.inj h
    refine ⟨rfl, rfl, rfl, rfl, rfl, ?_⟩
    -- each plan is stored under its own key, after its venue was checked
    refine List.foldlM_inv (fun s : Nat × Std.ExtTreeMap BookKey BookPlan =>
      ∀ (k : BookKey) (plan : BookPlan), s.2[k]? = some plan →
        plan.key = k ∧ k.instrument.venue = plan.venue) hloop (by simp) ?_
    rintro ⟨n, m⟩ p s' _ hm hround k plan hget
    obtain ⟨n', _, hround⟩ := Except.bind_eq_ok.mp hround
    split at hround
    · cases hround
    · rename_i hvenue
      split at hround
      · cases hround
      · obtain rfl := Except.ok.inj hround
        rw [Std.ExtTreeMap.getElem?_insert] at hget
        split at hget
        · rename_i heq
          obtain rfl := Std.LawfulEqCmp.eq_of_compare heq
          obtain rfl := Option.some.inj hget
          simp only [Bool.or_eq_true, decide_eq_true_eq, not_or, ne_eq, not_not] at hvenue
          exact ⟨rfl, hvenue.2⟩
        · exact hm k plan hget

theorem OpenSpec.ok {limits : RiskLimits} (h : OpenSpec limits e) : e.Ok := by
  refine ⟨?_, ?_⟩
  · intro k
    rw [h.books, Std.ExtTreeMap.mem_map]
  · intro k plan view hplan hview
    rw [h.books, Std.ExtTreeMap.getElem?_map, hplan] at hview
    obtain rfl := Option.some.inj hview
    exact ViewOk.of_not_usable (by simp [BookView.initial]) rfl rfl

/-- What every accepted item keeps holds after a run. -/
theorem run_inv {P : RiskEngine → Prop}
    (step : ∀ e item e' cut, P e → e.nextInner item = .ok (e', cut) → P e')
    {items : List WalkItem} {cuts : List RiskCut} (h : e.run items = .ok (e', cuts))
    (init : P e) : P e' := by
  induction items generalizing e cuts with
  | nil =>
    obtain ⟨rfl, -⟩ := Prod.mk.inj (Except.ok.inj h)
    exact init
  | cons item items ih =>
    obtain ⟨⟨e₁, cut⟩, hitem, h⟩ := Except.bind_eq_ok.mp h
    obtain ⟨⟨e₂, cuts'⟩, hrun, h⟩ := Except.bind_eq_ok.mp h
    obtain ⟨rfl, -⟩ := Prod.mk.inj (Except.ok.inj h)
    exact ih hrun (step e item e₁ cut init hitem)

/-- No item changes the plans. -/
theorem nextInner_plans {item : WalkItem} {cut : RiskCut} (hc : e.Closed)
    (h : e.nextInner item = .ok (e', cut)) : e'.plans = e.plans := by
  cases item with
  | windowStatus status =>
    obtain ⟨c, staged, hspec⟩ := (window_meets hc status).of_ok h
    exact hspec.commits.frame.1
  | group g =>
    obtain ⟨s, hspec⟩ := (group_meets hc g).of_ok h
    exact hspec.commits.frame.1

theorem run_plans {items : List WalkItem} {cuts : List RiskCut} (hok : e.Ok)
    (h : e.run items = .ok (e', cuts)) : e'.plans = e.plans := by
  have hinv : e'.Ok ∧ e'.plans = e.plans := by
    refine run_inv (P := fun e₁ => e₁.Ok ∧ e₁.plans = e.plans) ?_ h ⟨hok, rfl⟩
    rintro e₁ item e₂ cut ⟨hok₁, hplans⟩ hitem
    exact ⟨(nextInner_ok hok₁ item).of_ok hitem,
      (nextInner_plans hok₁.closed hitem).trans hplans⟩
  exact hinv.2

/-- An engine that opened on some plans and accepted some items. -/
def Reachable (e : RiskEngine) : Prop :=
  ∃ plans limits e₀ items cuts,
    openPlans plans limits = .ok e₀ ∧ e₀.run items = .ok (e, cuts)

theorem Reachable.ok (h : Reachable e) : e.Ok := by
  obtain ⟨plans, limits, e₀, items, cuts, hopen, hrun⟩ := h
  refine run_inv ?_ hrun (openPlans_spec hopen).ok
  intro e item e' cut hok hitem
  exact (nextInner_ok hok item).of_ok hitem

/-- In every reachable engine, a planned book has a view that is usable exactly with a ladder
    and a dependency, the ladder is within its ranges and limits and the dependency is on the
    lane's current epoch; and no item makes the engine panic or reach an uninitialized
    transition. -/
theorem reachable_representation (h : Reachable e) :
    (∀ (k : BookKey) (plan : BookPlan), e.plans[k]? = some plan →
      ∃ view, e.books[k]? = some view ∧
        (view.validity = .usable ↔ view.ladder.isSome) ∧
        (view.ladder.isSome ↔ view.dependency.isSome) ∧
        (∀ ladder, view.ladder = some ladder →
          (∀ (side : Side) (p : Int) (q : Nat), (ladder.side side)[p]? = some q →
            1 ≤ q ∧ q ≤ maxQuantityAtoms ∧ 0 ≤ p ∧ p ≤ 10 ^ plan.priceScale.exponent) ∧
          ladder.levels ≤ e.limits.maxLevelsPerBook) ∧
        (view.validity = .usable →
          ∃ d, view.dependency = some d ∧ e.epochs[plan.lane]? = some d.epoch)) ∧
    (∀ item, e.nextInner item ≠ .error .panic ∧
      e.nextInner item ≠ .error (.err "internal uninitialized transition")) := by
  refine ⟨?_, ?_⟩
  · intro k plan hplan
    obtain ⟨view, hview⟩ := h.ok.closed.exists_view hplan
    have hok := h.ok.view k plan view hplan hview
    refine ⟨view, hview, hok.ladder_iff, hok.ladder_iff.symm.trans hok.dependency_iff, ?_, ?_⟩
    · intro ladder hladder
      exact ⟨fun side p q hq => hok.ladder ladder hladder side p q hq, hok.levels ladder hladder⟩
    · intro hv
      obtain ⟨d, hd⟩ := Option.isSome_iff_exists.mp (hok.dependency_iff.mp hv)
      exact ⟨d, hd, hok.epoch d hd⟩
  · intro item
    have hitem := nextInner_ok h.ok item
    exact ⟨fun hx => (hitem.of_error hx).1 rfl, fun hx => (hitem.of_error hx).2 rfl⟩

/-! ## A sample run -/

def sampleLane : LaneId := ⟨"kalshi", by decide +kernel⟩

def sampleKey : BookKey := ⟨⟨"kalshi:FED", by decide +kernel, by decide +kernel⟩, .outcome⟩

def sampleScale : DecimalScale := ⟨2, by decide⟩

def samplePlan : BookPlan := ⟨sampleKey, sampleLane, "kalshi", sampleScale, sampleScale⟩

/-- One bid of 7.00 contracts at 0.45. -/
def sampleFull : FullBook :=
  { instrument := sampleKey.instrument
    orientation := .outcome
    bids := [⟨⟨⟨45, sampleScale, .quotePerContract, by decide⟩, by decide⟩,
      ⟨⟨700, sampleScale, .contracts, by decide⟩, by decide⟩⟩]
    asks := []
    snapshotHash := none
    sourceObservedNs := none
    venueTime := none
    scales := by decide
    bidOrder := by decide
    askOrder := by decide }

theorem sampleClock : 10 = 10 := rfl

def sampleHeader (verdict : ContinuityVerdict) : EventHeader :=
  ⟨10, 10, none, ⟨1, sampleLane, 0, 0, by decide⟩, verdict, sampleClock⟩

/-- A delivery of the sample lane under an epoch. -/
def sampleDelivery (epoch : String) (events : List SegmentEvent) : FilteredDelivery :=
  ⟨sampleHeader .continuous, some epoch, events.map (⟨sampleHeader .continuous, ·⟩), none⟩

def sampleGroup (deliveries : List FilteredDelivery) : AtomicGroup :=
  ⟨⟨"derivative", "receipt"⟩, (sampleHeader .continuous).address,
    (sampleHeader .continuous).address, 10, none, deliveries⟩

/-- A group with nothing but the sample's Full. -/
def sampleFullGroup : AtomicGroup :=
  sampleGroup [sampleDelivery "a" [.book (.full sampleFull)]]

def sampleRun (items : List WalkItem) : Except Halt (RiskEngine × List RiskCut) := do
  let e ← openPlans [samplePlan] .default
  e.run items

/-- A sample run that ends in an engine with some decidable property gives such a reachable
    engine. -/
theorem exists_reachable_of_sampleRun (items : List WalkItem) (p : RiskEngine → Bool)
    (h : (sampleRun items).toOption.any (fun r => p r.1) = true) :
    ∃ e, Reachable e ∧ p e = true := by
  cases hrun : sampleRun items with
  | error halt =>
    rw [hrun] at h
    cases h
  | ok r =>
    rw [hrun] at h
    obtain ⟨e₀, hopen, hitems⟩ := Except.bind_eq_ok.mp hrun
    exact ⟨r.1, ⟨_, _, e₀, items, r.2, hopen, hitems⟩, h⟩

theorem reachable_representation_sample :
    ∃ e, Reachable e ∧ ∃ view, e.books[sampleKey]? = some view ∧
      view.validity = .usable ∧ view.ladder.isSome ∧ view.dependency.isSome := by
  obtain ⟨e, hreach, he⟩ := exists_reachable_of_sampleRun
    [.group sampleFullGroup]
    (fun e => e.plans[sampleKey]? = some samplePlan &&
      (e.view sampleKey).any (·.validity = .usable)) (by decide +kernel)
  rw [Bool.and_eq_true, decide_eq_true_eq] at he
  obtain ⟨view, hview, hladder, hdep, -, -⟩ :=
    (reachable_representation hreach).1 sampleKey samplePlan he.1
  have hv : view.validity = .usable := by simpa [RiskEngine.view, hview] using he.2
  exact ⟨e, hreach, view, hview, hv, hladder.mp hv, hdep.mp (hladder.mp hv)⟩

end RiskEngine

end PredictionIndexer.Engine
