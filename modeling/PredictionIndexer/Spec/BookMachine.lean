import PredictionIndexer.Engine.Risk

/-!
# A group, seen from one planned book

`RiskEngine::group` loops over deliveries and records and updates a staged map of all planned
books. From the side of one book the loop is a machine of its own: some deliveries and records
are a `Stimulus` for it, the others are nothing, and its state is the epoch of its authority
lane and the work staged for it. This file extracts the stimuli and proves that the loop is
exactly the parallel product of these machines.

Key results:
- `deliver_follows` — one delivery drives every planned book through its stimuli
- `group_follows` — so does the delivery loop of a whole group
-/

namespace PredictionIndexer.Engine

open Fallible

/-! ## The machine of one book -/

/-- What can happen to a planned book inside a group. -/
inductive Stimulus where
  | source (verdict : ContinuityVerdict) (epoch : String)
  | invalidate (reason : Reason) (latch : Bool)
  | book (event : BookEvent) (reference : Reference) (epoch : String)

/-- The epoch of the book's lane and the work staged for it so far. -/
structure BookState where
  epoch : Option String
  staged : Option Work

namespace BookState

/-- The work an entry of the staged map yields: what is staged, or the committed view. -/
def work (view : BookView) (s : BookState) : Work := s.staged.getD (Work.new view)

def fail (view : BookView) (reason : Reason) (latch : Bool) (s : BookState) : BookState :=
  { s with staged := some ((s.work view).fail reason latch) }

end BookState

/-- One transition of the machine. -/
def Stimulus.act (e : RiskEngine) (plan : BookPlan) (view : BookView) (s : BookState) :
    Stimulus → Except Halt BookState
  | .source verdict epoch =>
    let s₁ := if s.epoch.any (· ≠ epoch) then s.fail view .epochChanged false else s
    let s₂ := if verdict.broken then s₁.fail view (.continuity verdict) true else s₁
    pure { s₂ with epoch := some epoch }
  | .invalidate reason latch => pure (s.fail view reason latch)
  | .book event reference epoch => do
    let w ← e.bookWork plan plan.lane event reference epoch (s.work view)
    pure { s with staged := some w }

/-- Whether a normalization fault on the book's lane reaches the book. -/
def BookPlan.reached (plan : BookPlan) (key : BookKey) : FaultImpact → Bool
  | .instrument i => key.instrument = i
  | .requestedVenueBooks v => plan.venue = v
  | .unattributedLane l => l = plan.lane
  | .auditCoverageOnly _ => false

/-- The stimuli of one record of the book's lane. -/
def BookPlan.eventStimuli (plan : BookPlan) (key : BookKey) (reference : Reference)
    (epoch : String) : SegmentEvent → List Stimulus
  | .book b => if b.bookKey = key then [.book b reference epoch] else []
  | .normalizationFault impact =>
    if plan.reached key impact then [.invalidate .unsupportedState true] else []
  | .control c =>
    match c.reason with
    | none => []
    | some (reason, latch) => [.invalidate reason latch]
  | .auditAnchor _ => []
  | .trade _ => []

/-- The three kinds of record that a book takes notice of. -/
theorem BookPlan.mem_eventStimuli {plan : BookPlan} {key : BookKey} {reference : Reference}
    {epoch : String} {event : SegmentEvent} {stimulus : Stimulus} :
    stimulus ∈ plan.eventStimuli key reference epoch event ↔
      (∃ b, event = .book b ∧ b.bookKey = key ∧ stimulus = .book b reference epoch) ∨
      (∃ impact, event = .normalizationFault impact ∧ plan.reached key impact = true ∧
        stimulus = .invalidate .unsupportedState true) ∨
      (∃ c reason latch, event = .control c ∧ c.reason = some (reason, latch) ∧
        stimulus = .invalidate reason latch) := by
  cases event with
  | book b => by_cases h : b.bookKey = key <;> simp [eventStimuli, h]
  | normalizationFault impact => cases h : plan.reached key impact <;> simp [eventStimuli, h]
  | control c =>
    cases h : c.reason with
    | none => simp [eventStimuli, h]
    | some rl =>
      obtain ⟨reason, latch⟩ := rl
      cases latch <;> simp [eventStimuli, h]
  | auditAnchor instrument => simp [eventStimuli]
  | trade t => simp [eventStimuli]

/-- Whether a delivery says anything about the books of the plan's lane. -/
def BookPlan.heeds (plan : BookPlan) (d : FilteredDelivery) : Bool :=
  !d.duplicate && d.lane = plan.lane

def BookPlan.recordStimuli (plan : BookPlan) (key : BookKey) (pin : DerivativePin)
    (d : FilteredDelivery) (epoch : String) (r : SegmentRecord) : List Stimulus :=
  if plan.heeds d then plan.eventStimuli key (Reference.new pin r.header) epoch r.event else []

def BookPlan.deliveryStimuli (plan : BookPlan) (key : BookKey) (pin : DerivativePin)
    (d : FilteredDelivery) : List Stimulus :=
  let epoch := d.connectionEpoch.getD ""
  (if plan.heeds d then [.source d.header.continuity epoch] else []) ++
    d.records.flatMap (plan.recordStimuli key pin d epoch)

theorem BookPlan.deliveryStimuli_of_heeds {plan : BookPlan} {key : BookKey}
    {pin : DerivativePin} {d : FilteredDelivery} (h : plan.heeds d = true) :
    plan.deliveryStimuli key pin d =
      .source d.header.continuity (d.connectionEpoch.getD "") ::
        d.records.flatMap fun r => plan.eventStimuli key (Reference.new pin r.header)
          (d.connectionEpoch.getD "") r.event := by
  simp only [deliveryStimuli, h, if_true, List.singleton_append, List.cons.injEq, true_and]
  refine List.flatMap_congr fun r _ => ?_
  simp [recordStimuli, h]

theorem BookPlan.deliveryStimuli_of_not_heeds {plan : BookPlan} {key : BookKey}
    {pin : DerivativePin} {d : FilteredDelivery} (h : plan.heeds d = false) :
    plan.deliveryStimuli key pin d = [] := by
  simp [deliveryStimuli, recordStimuli, h, List.flatMap_eq_nil_iff]

def BookPlan.groupStimuli (plan : BookPlan) (key : BookKey) (g : AtomicGroup) : List Stimulus :=
  g.deliveries.flatMap (plan.deliveryStimuli key g.pin)

/-- The machine's run over some stimuli. -/
def bookRun (e : RiskEngine) (plan : BookPlan) (view : BookView) (stimuli : List Stimulus)
    (s : BookState) : Except Halt BookState :=
  stimuli.foldlM (Stimulus.act e plan view) s

/-- The part of the group loop's state that one book sees. -/
def GroupState.book (s : GroupState) (key : BookKey) (plan : BookPlan) : BookState :=
  ⟨s.epochs[plan.lane]?, s.staged[key]?⟩

/-! ## What one book event can do -/

/-- A side is refused exactly when one of its levels is misscaled, and for no other reason. -/
theorem fullSide_cases (plan : BookPlan) (levels : List Level) :
    (levels.any plan.misscaled = true ∧ fullSide plan levels = .error .scaleMismatch) ∨
    (levels.any plan.misscaled = false ∧ fullSide plan levels =
      .ok (levels.foldl (fun m l => m.insert l.price.atoms l.quantity.atoms) ∅)) := by
  unfold fullSide
  generalize (∅ : Std.ExtTreeMap Int Nat) = m
  induction levels generalizing m with
  | nil => exact .inr ⟨rfl, rfl⟩
  | cons level levels ih =>
    cases hlevel : plan.misscaled level with
    | true => exact .inl ⟨by simp [hlevel], by simp [fullLevel, hlevel]⟩
    | false =>
      simpa [fullLevel, hlevel] using ih (m.insert level.price.atoms level.quantity.atoms)

/-- A misscaled full book is refused by `apply`, so refusing it early changes nothing. -/
theorem applyFull_of_misscaled {view : BookView} {plan : BookPlan} {full : FullBook}
    (h : (full.bids ++ full.asks).any plan.misscaled = true) (reference : Reference)
    (epoch : String) :
    applyFull view plan full reference epoch = .error .scaleMismatch := by
  rw [List.any_append, Bool.or_eq_true] at h
  unfold applyFull
  rcases fullSide_cases plan full.bids with ⟨_, hbids⟩ | ⟨hclean, hbids⟩
  · rw [hbids]
    rfl
  · rcases fullSide_cases plan full.asks with ⟨_, hasks⟩ | ⟨hclean', _⟩
    · rw [hbids, hasks]
      rfl
    · simp [hclean, hclean'] at h

/-- An accepted full book replaces the ladder. -/
theorem applyFull_eq_ok {view v : BookView} {plan : BookPlan} {full : FullBook}
    {reference : Reference} {epoch : String}
    (h : applyFull view plan full reference epoch = .ok v) :
    ∃ bids asks, fullSide plan full.bids = .ok bids ∧ fullSide plan full.asks = .ok asks ∧
      v = { view with
        ladder := some ⟨bids, asks⟩
        validity := .usable
        dependency := some ⟨epoch, reference, reference⟩ } := by
  obtain ⟨bids, hbids, h⟩ := Except.bind_eq_ok.mp h
  obtain ⟨asks, hasks, h⟩ := Except.bind_eq_ok.mp h
  exact ⟨bids, asks, hbids, hasks, (Except.ok.inj h).symm⟩

/-- An accepted delta changes one level of a usable book at the plan's scales. -/
theorem applyDelta_eq_ok {view v : BookView} {plan : BookPlan} {delta : BookDelta}
    {reference : Reference} (h : applyDelta view plan delta reference = .ok (.ok v)) :
    view.validity = .usable ∧ delta.price.scale = plan.priceScale ∧
      ∃ ladder dependency new, view.ladder = some ladder ∧ view.dependency = some dependency ∧
        delta.change.new ((ladder.side delta.side)[delta.price.atoms]?.getD 0) = .ok new ∧
        v = { view with
          ladder := some (ladder.setSide delta.side
            (setLevel (ladder.side delta.side) delta.price.atoms new))
          dependency := some { dependency with through := reference } } := by
  unfold applyDelta at h
  split at h
  · exact nomatch h
  · exact nomatch h
  · rename_i hv
    split at h
    · exact nomatch h
    · rename_i hscale
      split at h
      · exact nomatch h
      · refine ⟨hv, not_not.mp hscale, ?_⟩
        obtain ⟨ladder, hladder, h⟩ := Except.bind_eq_ok.mp h
        cases hnew : delta.change.new ((ladder.side delta.side)[delta.price.atoms]?.getD 0) with
        | error reason =>
          simp only [hnew] at h
          exact nomatch h
        | ok new =>
          simp only [hnew] at h
          obtain ⟨dependency, hdep, h⟩ := Except.bind_eq_ok.mp h
          exact ⟨ladder, dependency, new, unwrap_eq_ok.mp hladder, unwrap_eq_ok.mp hdep, hnew,
            (Except.ok.inj (Except.ok.inj h)).symm⟩

/-- The work after a book event was applied to its view. -/
def Work.applied (w : Work) (book : BookEvent) (view : BookView) : Work :=
  match book with
  | .delta delta => { w with view := view, operations := w.operations ++ [delta] }
  | .full _ => { w with view := view, full := true }

theorem RiskEngine.oversized_of_latched {e : RiskEngine} {plan : BookPlan} {w : Work}
    (hl : w.latched = true) (book : BookEvent) : e.oversized plan w book = .ok w := by
  cases book <;> simp [oversized, hl]

theorem RiskEngine.applyWork_of_latched {plan : BookPlan} {book : BookEvent}
    {reference : Reference} {epoch : String} {w : Work} (hl : w.latched = true) :
    applyWork plan book reference epoch w = .ok w := by
  simp [applyWork, hl]

/-- An oversized full book that is not an error is a misscaled one, and fails its work. -/
theorem RiskEngine.oversized_cases {e : RiskEngine} {plan : BookPlan} {w w' : Work}
    {book : BookEvent} (h : e.oversized plan w book = .ok w') :
    w' = w ∨ (w' = w.fail .scaleMismatch true ∧ ∀ view reference epoch,
      apply view plan book reference epoch = .ok (.error .scaleMismatch)) := by
  cases book with
  | delta delta => exact .inl (Except.ok.inj h).symm
  | full full =>
    simp only [oversized] at h
    split at h
    · exact .inl (Except.ok.inj h).symm
    · split at h
      · split at h
        · rename_i hmis
          right
          refine ⟨(Except.ok.inj h).symm, ?_⟩
          intro view reference epoch
          rw [apply, applyFull_of_misscaled hmis]
          rfl
        · exact nomatch h
      · exact .inl (Except.ok.inj h).symm

/-- What a book event can do to the work of its book: nothing to latched work, a latched
    failure, or an applied event within the level limit. -/
theorem RiskEngine.bookWork_cases {e : RiskEngine} {plan : BookPlan} {lane : LaneId}
    {book : BookEvent} {reference : Reference} {epoch : String} {w w' : Work}
    (h : e.bookWork plan lane book reference epoch w = .ok w') :
    (w.latched = true ∧ w' = w) ∨
    (w.latched = false ∧ ∃ reason, w' = w.fail reason true ∧
      (e.blocked[lane]? = some reason ∨
        (e.blocked[lane]? = none ∧ apply w.view plan book reference epoch = .ok (.error reason)))) ∨
    (w.latched = false ∧ e.blocked[lane]? = none ∧
      ∃ view, apply w.view plan book reference epoch = .ok (.ok view) ∧
        w' = w.applied book view) := by
  -- after the lane's block: oversized books, the event itself, the level limit
  obtain ⟨w₂, hover, h⟩ := Except.bind_eq_ok.mp h
  obtain ⟨w₃, happly, h⟩ := Except.bind_eq_ok.mp h
  have hw : w' = w₃ := by
    split at h
    · exact nomatch h
    · exact (Except.ok.inj h).symm
  subst hw
  -- work that is latched before the event comes out unchanged
  have hstuck : ∀ w₁ : Work, w₁.latched = true → e.oversized plan w₁ book = .ok w₂ →
      w' = w₁ := by
    intro w₁ hl ho
    rw [oversized_of_latched hl] at ho
    obtain rfl := Except.ok.inj ho
    rw [applyWork_of_latched hl] at happly
    exact (Except.ok.inj happly).symm
  have hfail : w.latched = false → ∀ reason, (w.fail reason true).latched = true := by
    intro hl reason
    simp [Work.fail, hl]
  cases hl : w.latched with
  | true =>
    left
    refine ⟨rfl, ?_⟩
    cases hb : e.blocked[lane]? with
    | none =>
      rw [hb] at hover
      exact hstuck w hl hover
    | some reason =>
      rw [hb] at hover
      have hsame : w.fail reason true = w := by simp [Work.fail, hl]
      simp only [hsame] at hover
      exact hstuck w hl hover
  | false =>
    right
    cases hb : e.blocked[lane]? with
    | some reason =>
      rw [hb] at hover
      left
      exact ⟨rfl, reason, hstuck _ (hfail hl reason) hover, .inl rfl⟩
    | none =>
      rw [hb] at hover
      rcases oversized_cases hover with rfl | ⟨rfl, hmis⟩
      · -- the event reaches `apply`
        simp only [applyWork, hl, Bool.false_eq_true, if_false] at happly
        obtain ⟨r, hr, happly⟩ := Except.bind_eq_ok.mp happly
        cases r with
        | error reason =>
          left
          exact ⟨rfl, reason, (Except.ok.inj happly).symm, .inr ⟨rfl, hr⟩⟩
        | ok view =>
          right
          refine ⟨rfl, rfl, view, hr, ?_⟩
          rw [← hl] at happly
          cases book <;> exact (Except.ok.inj happly).symm
      · left
        rw [applyWork_of_latched (hfail hl _)] at happly
        exact ⟨rfl, .scaleMismatch, (Except.ok.inj happly).symm,
          .inr ⟨rfl, hmis w.view reference epoch⟩⟩

/-! ## The loop follows the machines -/

/-- The engine has a view for every planned book and for no other. -/
def RiskEngine.Closed (e : RiskEngine) : Prop := ∀ k, k ∈ e.books ↔ k ∈ e.plans

/-- `x` drives every planned book through its stimuli: when it returns, every machine has made
    its run, and when it stops, a machine stopped with the same `Halt` (or, where a source lacks
    its epoch, that is reported). -/
def Follows (e : RiskEngine) (lacks : Prop) (stimuli : BookKey → BookPlan → List Stimulus)
    (s : GroupState) (x : Except Halt GroupState) : Prop :=
  x.Meets
    (fun h => (lacks ∧ h = .err "missing source epoch") ∨
      ∃ k plan view, e.plans[k]? = some plan ∧ e.books[k]? = some view ∧
        bookRun e plan view (stimuli k plan) (s.book k plan) = .error h)
    (fun s' => (∀ k ∈ s'.staged, k ∈ e.plans) ∧
      ∀ k plan view, e.plans[k]? = some plan → e.books[k]? = some view →
        bookRun e plan view (stimuli k plan) (s.book k plan) = .ok (s'.book k plan))

section Follows

variable {e : RiskEngine} {lacks : Prop} {s : GroupState} {x : Except Halt GroupState}
  {stimuli₁ stimuli₂ : BookKey → BookPlan → List Stimulus}

/-- A step that no book sees. -/
theorem follows_unseen {s' : GroupState} (hs : ∀ k ∈ s.staged, k ∈ e.plans)
    (hstaged : s'.staged = s.staged)
    (hepoch : ∀ (k : BookKey) (plan : BookPlan), e.plans[k]? = some plan →
      s'.epochs[plan.lane]? = s.epochs[plan.lane]?) :
    Follows e lacks (fun _ _ => []) s (pure s') := by
  refine ⟨by rw [hstaged]; exact hs, ?_⟩
  intro k plan view hplan _
  simp [bookRun, GroupState.book, hstaged, hepoch k plan hplan]

/-- Only the stimuli of planned books matter. -/
theorem Follows.congr (hx : Follows e lacks stimuli₁ s x)
    (h : ∀ k plan, e.plans[k]? = some plan → stimuli₂ k plan = stimuli₁ k plan) :
    Follows e lacks stimuli₂ s x := by
  refine hx.mono ?_ ?_
  · rintro halt (hl | ⟨k, plan, view, hplan, hview, hrun⟩)
    · exact .inl hl
    · exact .inr ⟨k, plan, view, hplan, hview, by rw [h k plan hplan, hrun]⟩
  · rintro s' ⟨hdom, hrun⟩
    refine ⟨hdom, ?_⟩
    intro k plan view hplan hview
    rw [h k plan hplan, hrun k plan view hplan hview]

/-- Two steps in a row: each book gets the stimuli of both. -/
theorem Follows.bind {f : GroupState → Except Halt GroupState}
    (hx : Follows e lacks stimuli₁ s x)
    (hf : ∀ s', (∀ k ∈ s'.staged, k ∈ e.plans) → Follows e lacks stimuli₂ s' (f s')) :
    Follows e lacks (fun k plan => stimuli₁ k plan ++ stimuli₂ k plan) s (x >>= f) := by
  cases x with
  | error h =>
    obtain hl | ⟨k, plan, view, hplan, hview, hrun⟩ := hx
    · exact .inl hl
    · refine .inr ⟨k, plan, view, hplan, hview, ?_⟩
      rw [bookRun, List.foldlM_append]
      rw [bookRun] at hrun
      rw [hrun]
      rfl
  | ok s' =>
    obtain ⟨hdom, hrun⟩ := hx
    -- the second half starts where the machines stand after the first
    have hsplit : ∀ k plan view, e.plans[k]? = some plan → e.books[k]? = some view →
        bookRun e plan view (stimuli₁ k plan ++ stimuli₂ k plan) (s.book k plan) =
          bookRun e plan view (stimuli₂ k plan) (s'.book k plan) := by
      intro k plan view hplan hview
      have h := hrun k plan view hplan hview
      rw [bookRun] at h
      rw [bookRun, List.foldlM_append, h]
      rfl
    refine (hf s' hdom).mono ?_ ?_
    · rintro h (hl | ⟨k, plan, view, hplan, hview, hr⟩)
      · exact .inl hl
      · exact .inr ⟨k, plan, view, hplan, hview, by rw [hsplit k plan view hplan hview, hr]⟩
    · rintro s'' ⟨hdom', hr⟩
      refine ⟨hdom', ?_⟩
      intro k plan view hplan hview
      rw [hsplit k plan view hplan hview, hr k plan view hplan hview]

/-- A loop of steps: each book gets the stimuli of every round. -/
theorem follows_foldlM {α : Type} {f : GroupState → α → Except Halt GroupState}
    {stimuli : α → BookKey → BookPlan → List Stimulus} {l : List α}
    (hs : ∀ k ∈ s.staged, k ∈ e.plans)
    (hf : ∀ a ∈ l, ∀ s, (∀ k ∈ s.staged, k ∈ e.plans) → Follows e lacks (stimuli a) s (f s a)) :
    Follows e lacks (fun k plan => l.flatMap (stimuli · k plan)) s (l.foldlM f s) := by
  induction l generalizing s with
  | nil => exact follows_unseen hs rfl fun _ _ _ => rfl
  | cons a l ih =>
    simp only [List.flatMap_cons, List.foldlM_cons]
    refine (hf a (by simp) s hs).bind ?_
    intro s' hs'
    refine ih hs' ?_
    intro b hb
    exact hf b (by simp [hb])

end Follows

/-! ## Invalidating a list of keys -/

theorem Work.fail_fail (w : Work) (reason : Reason) (latch : Bool) :
    (w.fail reason latch).fail reason latch = w.fail reason latch := by
  unfold Work.fail
  cases hw : w.latched <;> cases latch <;> simp [hw]

theorem entry_eq {staged : Staged} {books : Std.ExtTreeMap BookKey BookView} {k : BookKey}
    {view : BookView} (hview : books[k]? = some view) :
    entry staged books k = .ok (staged[k]?.getD (Work.new view)) := by
  unfold entry
  cases staged[k]? <;> simp [hview, unwrap, Except.map]

/-- Invalidating keys of existing books fails their work and leaves the rest alone. -/
theorem invalidate_spec {books : Std.ExtTreeMap BookKey BookView} {keys : List BookKey}
    (reason : Reason) (latch : Bool) (hkeys : ∀ k ∈ keys, k ∈ books) (staged : Staged) :
    ∃ staged', invalidate staged books keys reason latch = .ok staged' ∧
      ∀ k, staged'[k]? =
        if k ∈ keys then
          books[k]?.map fun view => (staged[k]?.getD (Work.new view)).fail reason latch
        else staged[k]? := by
  induction keys generalizing staged with
  | nil => exact ⟨staged, rfl, by simp⟩
  | cons key keys ih =>
    obtain ⟨view, hview⟩ : ∃ view, books[key]? = some view := by
      have := hkeys key (by simp)
      exact ⟨books[key], by simp [this]⟩
    let w := (staged[key]?.getD (Work.new view)).fail reason latch
    obtain ⟨staged', hrun, hget⟩ :=
      ih (by intro k hk; exact hkeys k (by simp [hk])) (staged.insert key w)
    refine ⟨staged', ?_, ?_⟩
    · rw [invalidate, List.foldlM_cons, invalidateKey, entry_eq hview]
      exact hrun
    · intro k
      rw [hget k, Std.ExtTreeMap.getElem?_insert]
      by_cases hk : key = k
      · subst hk
        simp [hview, w, Work.fail_fail]
      · simp [hk, Ne.symm hk]

/-- The same for an invalidation under a condition. -/
theorem invalidate_when_spec {books : Std.ExtTreeMap BookKey BookView} {keys : List BookKey}
    (c : Bool) (reason : Reason) (latch : Bool) (hkeys : ∀ k ∈ keys, k ∈ books)
    (staged : Staged) :
    ∃ staged', (if c then invalidate staged books keys reason latch else pure staged) =
        .ok staged' ∧
      ∀ k, staged'[k]? =
        if c ∧ k ∈ keys then
          books[k]?.map fun view => (staged[k]?.getD (Work.new view)).fail reason latch
        else staged[k]? := by
  cases c with
  | true => simpa using invalidate_spec reason latch hkeys staged
  | false => exact ⟨staged, rfl, by simp⟩

/-! ## One record and one delivery -/

namespace RiskEngine

variable {e : RiskEngine}

theorem mem_relevant {lane : LaneId} {k : BookKey} :
    k ∈ e.relevant lane ↔ ∃ plan, e.plans[k]? = some plan ∧ plan.lane = lane := by
  simp [relevant, Std.ExtTreeMap.mem_toList_iff_getElem?_eq_some]

/-- A planned book has a view. -/
theorem Closed.exists_view (hc : e.Closed) {k : BookKey} {plan : BookPlan}
    (hplan : e.plans[k]? = some plan) : ∃ view, e.books[k]? = some view := by
  have hk : k ∈ e.books := by
    rw [hc, Std.ExtTreeMap.mem_iff_isSome_getElem?, hplan]
    rfl
  exact ⟨e.books[k], by simp [hk]⟩

theorem Closed.mem_books_of_relevant (hc : e.Closed) {lane : LaneId} {k : BookKey}
    (hk : k ∈ e.relevant lane) : k ∈ e.books := by
  obtain ⟨plan, hplan, _⟩ := mem_relevant.mp hk
  rw [hc, Std.ExtTreeMap.mem_iff_isSome_getElem?, hplan]
  rfl

/-- Invalidating some keys of a lane is the same stimulus for each of them. -/
theorem invalidate_follows (hc : e.Closed) {lacks : Prop} {s : GroupState}
    (hs : ∀ k ∈ s.staged, k ∈ e.plans) {keys : List BookKey} (lane : LaneId)
    (hkeys : ∀ k ∈ keys, k ∈ e.relevant lane) (reason : Reason) (latch : Bool) :
    Follows e lacks (fun k _ => if k ∈ keys then [.invalidate reason latch] else []) s
      (do let staged ← invalidate s.staged e.books keys reason latch
          pure { s with staged := staged }) := by
  obtain ⟨staged', hrun, hget⟩ := invalidate_spec reason latch
    (fun k hk => hc.mem_books_of_relevant (hkeys k hk)) s.staged
  rw [hrun]
  refine ⟨?_, ?_⟩
  · intro k hk
    by_cases hmem : k ∈ keys
    · exact (hc k).mp (hc.mem_books_of_relevant (hkeys k hmem))
    · rw [Std.ExtTreeMap.mem_iff_isSome_getElem?, hget, if_neg hmem] at hk
      exact hs k (Std.ExtTreeMap.mem_iff_isSome_getElem?.mpr hk)
  · intro k plan view _ hview
    by_cases hmem : k ∈ keys
    · simp [bookRun, GroupState.book, Stimulus.act, BookState.fail, BookState.work, hget, hmem,
        hview]
    · simp [bookRun, GroupState.book, hget, hmem]

/-- `source` past its guard, with its two conditional invalidations in sequence. -/
theorem source_eq (d : FilteredDelivery) (epoch : String) (s : GroupState)
    (h : ¬(d.duplicate || (e.relevant d.lane).isEmpty) = true) :
    e.source d epoch s =
      ((if s.epochs[d.lane]?.any (· ≠ epoch) then
          invalidate s.staged e.books (e.relevant d.lane) .epochChanged false
        else pure s.staged) >>= fun staged =>
      (if d.header.continuity.broken then
          invalidate staged e.books (e.relevant d.lane) (.continuity d.header.continuity) true
        else pure staged) >>= fun staged =>
      pure { s with epochs := s.epochs.insert d.lane epoch, staged := staged }) := by
  simp only [source, h, Bool.false_eq_true, if_false]
  split <;> split <;> rfl

/-- The source half of a delivery is the `source` stimulus of every book on its lane. -/
theorem source_follows (hc : e.Closed) {lacks : Prop} {s : GroupState}
    (hs : ∀ k ∈ s.staged, k ∈ e.plans) (d : FilteredDelivery) (epoch : String) :
    Follows e lacks
      (fun _ plan => if plan.heeds d then [.source d.header.continuity epoch] else []) s
      (e.source d epoch s) := by
  by_cases hskip : (d.duplicate || (e.relevant d.lane).isEmpty) = true
  · simp only [source, hskip, if_true]
    refine ⟨hs, ?_⟩
    intro k plan view hplan _
    -- an empty relevant list means that no plan names the lane
    have hheed : plan.heeds d = false := by
      rw [Bool.or_eq_true, List.isEmpty_iff] at hskip
      unfold BookPlan.heeds
      rcases hskip with hdup | hnil
      · simp [hdup]
      · have : d.lane ≠ plan.lane := by
          intro hlane
          have hk : k ∈ e.relevant d.lane := mem_relevant.mpr ⟨plan, hplan, hlane.symm⟩
          simp [hnil] at hk
        simp [this]
    simp [hheed, bookRun]
  · have hrel : ∀ k ∈ e.relevant d.lane, k ∈ e.books :=
      fun k hk => hc.mem_books_of_relevant hk
    obtain ⟨hdup, -⟩ : d.duplicate = false ∧ _ := by simpa using hskip
    obtain ⟨staged₁, hrun₁, hget₁⟩ := invalidate_when_spec
      (s.epochs[d.lane]?.any (· ≠ epoch)) .epochChanged false hrel s.staged
    obtain ⟨staged₂, hrun₂, hget₂⟩ := invalidate_when_spec
      d.header.continuity.broken (.continuity d.header.continuity) true hrel staged₁
    rw [source_eq d epoch s hskip, hrun₁, Except.ok_bind, hrun₂, Except.ok_bind]
    refine ⟨?_, ?_⟩
    · intro k hk
      by_cases hmem : k ∈ e.relevant d.lane
      · exact (hc k).mp (hrel k hmem)
      · rw [Std.ExtTreeMap.mem_iff_isSome_getElem?] at hk
        simp only [hget₂, hget₁, hmem, and_false, if_false] at hk
        exact hs k (Std.ExtTreeMap.mem_iff_isSome_getElem?.mpr hk)
    · intro k plan view hplan hview
      have hmem : k ∈ e.relevant d.lane ↔ d.lane = plan.lane := by
        rw [mem_relevant, hplan]
        simp [eq_comm]
      by_cases hlane : d.lane = plan.lane
      · have hheed : plan.heeds d = true := by simp [BookPlan.heeds, hdup, hlane]
        have h₁ := hget₁ k
        have h₂ := hget₂ k
        simp only [hmem.mpr hlane, and_true, hview, Option.map_some] at h₁ h₂
        rw [hlane] at h₁
        simp only [bookRun, hheed, if_true, List.foldlM_cons, List.foldlM_nil, Stimulus.act,
          GroupState.book]
        generalize s.epochs[plan.lane]?.any (· ≠ epoch) = changed at h₁ ⊢
        generalize d.header.continuity.broken = broken at h₂ ⊢
        cases changed <;> cases broken <;>
          simp [h₁, h₂, hlane, BookState.fail, BookState.work]
      · have hheed : plan.heeds d = false := by simp [BookPlan.heeds, hlane]
        simp [bookRun, hheed, GroupState.book, hget₂, hget₁, hmem, hlane,
          Std.ExtTreeMap.getElem?_insert]

/-- A book event is a stimulus for its own key, if that key is planned on the lane. -/
theorem bookEvent_follows (hc : e.Closed) {lacks : Prop} {s : GroupState}
    (hs : ∀ k ∈ s.staged, k ∈ e.plans) (lane : LaneId) (epoch : String) (reference : Reference)
    (b : BookEvent) :
    Follows e lacks
      (fun k plan => if plan.lane = lane ∧ b.bookKey = k then [.book b reference epoch] else [])
      s (e.bookEvent lane epoch reference b s) := by
  unfold bookEvent
  cases hfilter : e.plans[b.bookKey]?.filter (·.lane = lane) with
  | none =>
    refine Follows.congr (follows_unseen hs rfl fun _ _ _ => rfl) ?_
    intro k plan hplan
    refine if_neg ?_
    rintro ⟨hlane, rfl⟩
    simp [hplan, hlane] at hfilter
  | some plan₀ =>
    obtain ⟨hplan₀, hlane₀⟩ : e.plans[b.bookKey]? = some plan₀ ∧ plan₀.lane = lane := by
      simpa [Option.filter_eq_some_iff] using hfilter
    subst hlane₀
    obtain ⟨view₀, hview₀⟩ := hc.exists_view hplan₀
    simp only [entry_eq hview₀, Except.ok_bind]
    cases hw : e.bookWork plan₀ plan₀.lane b reference epoch
        (s.staged[b.bookKey]?.getD (Work.new view₀)) with
    | error h =>
      refine .inr ⟨b.bookKey, plan₀, view₀, hplan₀, hview₀, ?_⟩
      simp [bookRun, Stimulus.act, BookState.work, GroupState.book, hw]
    | ok w =>
      refine ⟨?_, ?_⟩
      · intro k hk
        rcases Std.ExtTreeMap.mem_insert.mp hk with hkey | hk
        · rw [← Std.LawfulEqCmp.eq_of_compare hkey]
          exact Std.ExtTreeMap.mem_iff_isSome_getElem?.mpr (by simp [hplan₀])
        · exact hs k hk
      · intro k plan view hplan hview
        by_cases hk : b.bookKey = k
        · subst hk
          obtain rfl : plan = plan₀ := by simpa [hplan] using hplan₀
          obtain rfl : view = view₀ := by simpa [hview] using hview₀
          simp [bookRun, Stimulus.act, BookState.work, GroupState.book, hw]
        · simp [bookRun, GroupState.book, hk, Std.ExtTreeMap.getElem?_insert]

/-- Keys a fault reaches are relevant keys. -/
theorem mem_faultKeys {lane : LaneId} {impact : FaultImpact} {k : BookKey} {plan : BookPlan}
    (hplan : e.plans[k]? = some plan) :
    k ∈ e.faultKeys lane impact ↔ plan.lane = lane ∧ plan.reached k impact = true := by
  simp only [faultKeys, List.mem_filter, mem_relevant, hplan, Option.some.injEq,
    exists_eq_left', and_congr_right_iff]
  rintro rfl
  cases impact <;> simp [BookPlan.reached]

/-- Without a relevant key, no planned book is on the lane. -/
theorem lane_ne_of_relevant_isEmpty {lane : LaneId} (h : (e.relevant lane).isEmpty = true)
    {k : BookKey} {plan : BookPlan} (hplan : e.plans[k]? = some plan) : lane ≠ plan.lane := by
  rintro rfl
  have hk : k ∈ e.relevant plan.lane := mem_relevant.mpr ⟨plan, hplan, rfl⟩
  rw [List.isEmpty_iff] at h
  simp [h] at hk

/-- A nonduplicate record is the stimulus of its event for every book on the lane. -/
theorem recordEvent_follows (hc : e.Closed) {lacks : Prop} {s : GroupState}
    (hs : ∀ k ∈ s.staged, k ∈ e.plans) (d : FilteredDelivery) (epoch : String)
    (reference : Reference) (event : SegmentEvent) :
    Follows e lacks
      (fun k plan => if d.lane = plan.lane then plan.eventStimuli k reference epoch event else [])
      s (e.recordEvent d epoch reference event s) := by
  cases event with
  | book b =>
    refine (bookEvent_follows hc hs d.lane epoch reference b).congr ?_
    intro k plan _
    by_cases hlane : d.lane = plan.lane
    · simp [BookPlan.eventStimuli, hlane]
    · simp [hlane, Ne.symm hlane]
  | normalizationFault impact =>
    unfold recordEvent
    by_cases hnil : (e.relevant d.lane).isEmpty = true
    · simp only [hnil, if_true]
      refine Follows.congr (follows_unseen hs rfl fun _ _ _ => rfl) ?_
      intro k plan hplan
      exact if_neg (lane_ne_of_relevant_isEmpty hnil hplan)
    · simp only [hnil, Bool.false_eq_true, if_false]
      refine (invalidate_follows hc hs d.lane ?_ .unsupportedState true).congr ?_
      · intro k hk
        exact (List.mem_filter.mp hk).1
      · intro k plan hplan
        by_cases hlane : d.lane = plan.lane
        · simp [mem_faultKeys hplan, hlane, BookPlan.eventStimuli]
        · simp [mem_faultKeys hplan, hlane, Ne.symm hlane]
  | control control =>
    unfold recordEvent
    by_cases hnil : (e.relevant d.lane).isEmpty = true
    · simp only [hnil, if_true]
      refine Follows.congr (follows_unseen hs rfl fun _ _ _ => rfl) ?_
      intro k plan hplan
      exact if_neg (lane_ne_of_relevant_isEmpty hnil hplan)
    · simp only [hnil, Bool.false_eq_true, if_false]
      cases hreason : control.reason with
      | none =>
        refine Follows.congr (follows_unseen hs rfl fun _ _ _ => rfl) ?_
        simp [BookPlan.eventStimuli, hreason]
      | some rl =>
        refine (invalidate_follows hc hs d.lane (fun _ hk => hk) rl.1 rl.2).congr ?_
        intro k plan hplan
        simp [mem_relevant, hplan, BookPlan.eventStimuli, hreason, eq_comm]
  | auditAnchor instrument =>
    exact (follows_unseen hs rfl fun _ _ _ => rfl).congr (by simp [BookPlan.eventStimuli])
  | trade t =>
    exact (follows_unseen hs rfl fun _ _ _ => rfl).congr (by simp [BookPlan.eventStimuli])

/-- One round of the record loop. -/
theorem record_follows (hc : e.Closed) {lacks : Prop} {s : GroupState}
    (hs : ∀ k ∈ s.staged, k ∈ e.plans) (pin : DerivativePin) (d : FilteredDelivery)
    (epoch : String) (r : SegmentRecord) :
    Follows e lacks (fun k plan => plan.recordStimuli k pin d epoch r) s
      (e.record pin d epoch s r) := by
  cases hdup : d.duplicate with
  | true =>
    simp only [record, hdup, if_true]
    refine Follows.congr (follows_unseen hs rfl fun _ _ _ => rfl) ?_
    simp [BookPlan.recordStimuli, BookPlan.heeds, hdup]
  | false =>
    simp only [record, hdup, Bool.false_eq_true, if_false]
    -- the events and controls recorded first are no part of a book's state
    let s₁ : GroupState :=
      { s with
        events := s.events ++ market false (Reference.new pin r.header) r.event
        controls := s.controls ++ metadataChange (Reference.new pin r.header) r.event }
    have h₁ : ∀ k ∈ s₁.staged, k ∈ e.plans := hs
    refine Follows.congr (recordEvent_follows hc h₁ d epoch _ r.event) ?_
    simp [BookPlan.recordStimuli, BookPlan.heeds, hdup]

/-- One round of the delivery loop. -/
theorem deliver_follows (hc : e.Closed) {s : GroupState} (hs : ∀ k ∈ s.staged, k ∈ e.plans)
    (pin : DerivativePin) (d : FilteredDelivery) :
    Follows e (d.connectionEpoch = none) (fun k plan => plan.deliveryStimuli k pin d) s
      (e.deliver pin s d) := by
  unfold deliver
  cases hepoch : d.connectionEpoch with
  | none => exact .inl ⟨rfl, rfl⟩
  | some epoch =>
    simp only [okOr, Except.ok_bind, BookPlan.deliveryStimuli, hepoch, Option.getD_some]
    refine (source_follows hc hs d epoch).bind ?_
    intro s' hs'
    refine follows_foldlM hs' ?_
    intro r _ t ht
    exact record_follows hc ht pin d epoch r

/-- The delivery loop of a group drives every planned book through the group's stimuli. -/
theorem group_follows (hc : e.Closed) (g : AtomicGroup) :
    Follows e (∃ d ∈ g.deliveries, d.connectionEpoch = none)
      (fun k plan => plan.groupStimuli k g) ⟨e.epochs, ∅, [], []⟩
      (g.deliveries.foldlM (e.deliver g.pin) ⟨e.epochs, ∅, [], []⟩) := by
  refine follows_foldlM (by simp) ?_
  intro d hd s hs
  refine (deliver_follows hc hs g.pin d).mono ?_ fun _ hs' => hs'
  rintro h (⟨hnone, rfl⟩ | hrun)
  · exact .inl ⟨⟨d, hd, hnone⟩, rfl⟩
  · exact .inr hrun

end RiskEngine

end PredictionIndexer.Engine
