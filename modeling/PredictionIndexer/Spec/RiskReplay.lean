import PredictionIndexer.Spec.RiskInvariant

/-!
# A transition tells how its view came about

What a cut sends about a book is a decision. A snapshot carries the new ladder itself; the
operations of a transition, replayed over the ladder before the cut, give the ladder after it;
an invalidation leaves none. The work staged inside a group keeps the operations in step with
its view (`Work.Replays`), and a commit turns that into the statement about transitions.

Key results:
- `groupRun_replays` — staged work replays over the committed view
- `nextInner_cut` — the content of the transitions of one accepted item
-/

namespace PredictionIndexer.Engine

open Fallible

/-! ## Replaying operations -/

/-- One delta as a step on ladders. -/
def Ladder.step (l : Ladder) (delta : BookDelta) : Except Reason Ladder := do
  let new ← delta.change.new ((l.side delta.side)[delta.price.atoms]?.getD 0)
  pure (l.setSide delta.side (setLevel (l.side delta.side) delta.price.atoms new))

/-- Operations in order. -/
def Ladder.replay (l : Ladder) (ops : List BookDelta) : Except Reason Ladder :=
  ops.foldlM Ladder.step l

theorem Ladder.replay_append_singleton {l l' l'' : Ladder} {ops : List BookDelta}
    {delta : BookDelta} (h : l.replay ops = .ok l') (hstep : l'.step delta = .ok l'') :
    l.replay (ops ++ [delta]) = .ok l'' :=
  List.foldlM_append_eq_ok.mpr ⟨l', h, List.foldlM_cons_eq_ok.mpr ⟨l'', hstep, rfl⟩⟩

/-- Usable work without a Full is the committed view with the work's operations replayed. -/
structure Work.Replays (plan : BookPlan) (view : BookView) (w : Work) : Prop where
  scales : ∀ d ∈ w.operations, d.price.scale = plan.priceScale
  replay : w.view.validity = .usable → w.full = false →
    view.validity = .usable ∧ ∃ l₀ l, view.ladder = some l₀ ∧ w.view.ladder = some l ∧
      l₀.replay w.operations = .ok l

section

variable {e : RiskEngine} {plan : BookPlan} {view : BookView} {w w' : Work}

theorem Work.Replays.new (h : view.validity = .usable → view.ladder.isSome) :
    (Work.new view).Replays plan view := by
  refine ⟨by simp [Work.new], ?_⟩
  intro hv _
  obtain ⟨l, hl⟩ := Option.isSome_iff_exists.mp (h hv)
  exact ⟨hv, l, l, hl, hl, rfl⟩

theorem Work.Replays.fail (h : w.Replays plan view) (reason : Reason) (latch : Bool) :
    (w.fail reason latch).Replays plan view := by
  unfold Work.fail
  split
  · exact h
  · exact ⟨by simp, fun hv => nomatch hv⟩

/-- A book event extends the replay, replaces it by a Full, or fails. -/
theorem Work.Replays.bookWork (h : w.Replays plan view) {lane : LaneId} {book : BookEvent}
    {reference : Reference} {epoch : String}
    (hw : e.bookWork plan lane book reference epoch w = .ok w') : w'.Replays plan view := by
  rcases RiskEngine.bookWork_cases hw with ⟨-, rfl⟩ | ⟨-, reason, rfl, -⟩ | ⟨-, -, v, happly, rfl⟩
  · exact h
  · exact h.fail reason true
  · cases book with
    | full full => exact ⟨h.scales, fun _ hfull => nomatch hfull⟩
    | delta delta =>
      obtain ⟨hv, hscale, ladder, dependency, new, hladder, -, hnew, rfl⟩ :=
        applyDelta_eq_ok happly
      refine ⟨?_, ?_⟩
      · intro d hd
        rcases List.mem_append.mp hd with hd | hd
        · exact h.scales d hd
        · obtain rfl := List.mem_singleton.mp hd
          exact hscale
      · intro _ hfull
        obtain ⟨hview, l₀, l, hl₀, hl, hreplay⟩ := h.replay hv hfull
        rw [hladder] at hl
        obtain rfl := Option.some.inj hl
        refine ⟨hview, l₀, _, hl₀, rfl, Ladder.replay_append_singleton hreplay ?_⟩
        rw [Ladder.step, hnew]
        rfl

/-- One stimulus keeps the work in step with its operations. -/
theorem Stimulus.act_replays {s s' : BookState} (h : (s.work view).Replays plan view)
    {stimulus : Stimulus} (hact : stimulus.act e plan view s = .ok s') :
    (s'.work view).Replays plan view := by
  have hfail : ∀ (t : BookState) (reason : Reason) (latch : Bool),
      (t.work view).Replays plan view → ((t.fail view reason latch).work view).Replays plan view :=
    fun t reason latch ht => ht.fail reason latch
  cases stimulus with
  | source verdict epoch =>
    obtain rfl := Except.ok.inj hact
    show (BookState.work view _).Replays plan view
    unfold BookState.work
    simp only
    by_cases hchanged : s.epoch.any (· ≠ epoch) = true <;>
      by_cases hbroken : verdict.broken = true <;>
      simp only [hchanged, hbroken, if_true, if_false, Bool.false_eq_true]
    · exact hfail _ _ _ (hfail _ _ _ h)
    · exact hfail _ _ _ h
    · exact hfail _ _ _ h
    · exact h
  | invalidate reason latch =>
    obtain rfl := Except.ok.inj hact
    exact hfail s reason latch h
  | book event reference epoch =>
    obtain ⟨w, hw, hact⟩ := Except.bind_eq_ok.mp hact
    obtain rfl := Except.ok.inj hact
    exact h.bookWork hw

theorem bookRun_replays {s s' : BookState} (h : (s.work view).Replays plan view)
    {stimuli : List Stimulus} (hrun : bookRun e plan view stimuli s = .ok s') :
    (s'.work view).Replays plan view := by
  refine List.foldlM_inv (fun t : BookState => (t.work view).Replays plan view) hrun h ?_
  intro t stimulus t' _ ht hact
  exact Stimulus.act_replays ht hact

end

/-! ## Decisions -/

/-- How the view of a transition comes about from the view before it. -/
inductive BookTransition.Decided (plan : BookPlan) (old : BookView) (t : BookTransition) : Prop where
  | snapshot (l : Ladder) (decision : t.decision = .snapshot l)
    (validity : t.view.validity = .usable) (ladder : t.view.ladder = some l)
    (inRange : LadderOk plan l)
  | operations (ops : List BookDelta) (l₀ l : Ladder) (decision : t.decision = .operations ops)
    (before : old.validity = .usable) (ladder₀ : old.ladder = some l₀)
    (replay : l₀.replay ops = .ok l)
    (scales : ∀ d ∈ ops, d.price.scale = plan.priceScale)
    (validity : t.view.validity = .usable) (ladder : t.view.ladder = some l)
  | invalidation (reason : Reason) (decision : t.decision = .invalidation reason)
    (validity : t.view.validity = .unusable reason) (ladder : t.view.ladder = none)

namespace RiskEngine

variable {e e' : RiskEngine} {cut : RiskCut}

/-- Committed work decides its transition. -/
theorem Commits.decided {origin : CutOrigin} {k : BookKey} {plan : BookPlan} {old : BookView}
    {w : Work} {t : BookTransition} {epoch : Option String} (h : Commits origin k old w t)
    (hok : ViewOk e.limits plan epoch w.view) (hreplays : w.Replays plan old) :
    t.Decided plan old := by
  have hdecision := h.decision
  unfold Decides at hdecision
  cases hv : w.view.validity with
  | notInitialized =>
    rw [hv] at hdecision
    exact hdecision.elim
  | unusable reason =>
    rw [hv] at hdecision
    have hnone : w.view.ladder = none := by
      rw [← Option.not_isSome_iff_eq_none, ← hok.ladder_iff, hv]
      simp
    exact .invalidation reason hdecision (by rw [h.view, ← hv]) (by rw [h.view, ← hnone])
  | usable =>
    rw [hv] at hdecision
    cases hfull : w.full with
    | true =>
      simp only [hfull, if_true] at hdecision
      obtain ⟨l, hl, hdecision⟩ := hdecision
      exact .snapshot l hdecision (by rw [h.view, ← hv]) (by rw [h.view, ← hl]) (hok.ladder l hl)
    | false =>
      simp only [hfull, Bool.false_eq_true, if_false] at hdecision
      obtain ⟨hbefore, l₀, l, hl₀, hl, hreplay⟩ := hreplays.replay hv hfull
      exact .operations w.operations l₀ l hdecision hbefore hl₀ hreplay hreplays.scales
        (by rw [h.view, ← hv]) (by rw [h.view, ← hl])

/-- What the transitions of an accepted item say, and that the engine holds their views. -/
structure CutSpec (e e' : RiskEngine) (cut : RiskCut) : Prop where
  plans : e'.plans = e.plans
  sequence : cut.sequence = e.sequence + 1 ∧ e'.sequence = e.sequence + 1
  transitions : ∀ t ∈ cut.bookTransitions, ∃ plan old, e.plans[t.key]? = some plan ∧
    e.books[t.key]? = some old ∧ t.previousRevision = old.revision ∧
    t.view.revision = old.revision + 1 ∧ t.Decided plan old
  keys : cut.bookTransitions.Pairwise fun a b => a.key ≠ b.key
  books : e'.books = cut.bookTransitions.foldl (fun m t => m.insert t.key t.view) e.books

/-- A commit of well-formed work whose operations replay. -/
theorem CommitSpec.cutSpec {e₁ : RiskEngine} {origin : CutOrigin} {events : List MarketRecord}
    {controls : List ControlRecord} {staged : Staged}
    (h : CommitSpec e₁ origin events controls staged e' cut) (hplans : e₁.plans = e.plans)
    (hbooks : e₁.books = e.books) (hsequence : e₁.sequence = e.sequence)
    (hstaged : ∀ (k : BookKey) (w : Work), staged[k]? = some w → ∃ plan old epoch,
      e.plans[k]? = some plan ∧ e.books[k]? = some old ∧
        ViewOk e.limits plan epoch w.view ∧ w.Replays plan old) :
    CutSpec e e' cut := by
  obtain ⟨hplans', -, -, -, hsequence'⟩ := h.frame
  refine ⟨hplans'.trans hplans, ⟨?_, by rw [hsequence', hsequence]⟩, ?_, h.keys_pairwise, ?_⟩
  · rw [h.content, hsequence]
  · intro t ht
    obtain ⟨⟨k, w⟩, hkw, old', hold', hcommits⟩ := h.transitions.exists_of_mem_right ht
    obtain ⟨plan, old, epoch, hplan, hold, hok, hreplays⟩ :=
      hstaged k w (Std.ExtTreeMap.mem_toList_iff_getElem?_eq_some.mp hkw)
    rw [hbooks, hold] at hold'
    obtain rfl := Option.some.inj hold'
    refine ⟨plan, old, ?_, ?_, hcommits.previousRevision, ?_, hcommits.decided hok hreplays⟩
    · rw [hcommits.key, hplan]
    · rw [hcommits.key, hold]
    · rw [hcommits.view]
  · rw [h.books, hbooks]

theorem group_cut (h : e.Ok) {g : AtomicGroup} (hgroup : e.group g = .ok (e', cut)) :
    CutSpec e e' cut := by
  obtain ⟨s, hspec⟩ := (group_meets h.closed g).of_ok hgroup
  refine hspec.commits.cutSpec rfl rfl rfl ?_
  intro k w hw
  have hk : k ∈ e.plans :=
    hspec.planned k (Std.ExtTreeMap.mem_iff_isSome_getElem?.mpr (by simp [hw]))
  have hplan : e.plans[k]? = some e.plans[k] := by simp [hk]
  obtain ⟨old, hold⟩ := h.closed.exists_view hplan
  have hview := h.view k _ old hplan hold
  have hrun := hspec.runs k _ old hplan hold
  have hwork : (s.book k e.plans[k]).work old = w := by
    simp [BookState.work, GroupState.book, hw]
  have hok := ((groupRun_ok g ⟨WorkOk.new hview, by simp⟩).of_ok hrun).work.view
  have hreplays := bookRun_replays (Work.Replays.new hview.ladder_iff.mp) hrun
  rw [hwork] at hok hreplays
  exact ⟨e.plans[k], old, _, hplan, hold, hok, hreplays⟩

theorem window_cut (h : e.Ok) {status : WindowStatus}
    (hwindow : e.window status = .ok (e', cut)) : CutSpec e e' cut := by
  obtain ⟨c, staged, hspec⟩ := (window_meets h.closed status).of_ok hwindow
  refine hspec.commits.cutSpec rfl rfl rfl ?_
  intro k w hw
  have hk : k ∈ e.plans :=
    hspec.planned k (Std.ExtTreeMap.mem_iff_isSome_getElem?.mpr (by simp [hw]))
  have hplan : e.plans[k]? = some e.plans[k] := by simp [hk]
  obtain ⟨old, hold⟩ := h.closed.exists_view hplan
  have hview := h.view k _ old hplan hold
  rw [hspec.staged_eq k _ old hplan hold] at hw
  obtain ⟨reason, -, rfl⟩ := Option.map_eq_some_iff.mp hw
  refine ⟨e.plans[k], old, none, hplan, hold, ?_, ?_⟩
  · exact ViewOk.of_not_usable (by simp [Work.invalid_view]) rfl rfl
  · exact (Work.Replays.new hview.ladder_iff.mp).fail reason true

/-- One accepted item: its transitions chain the revisions and decide the new views. -/
theorem nextInner_cut (h : e.Ok) {item : WalkItem} (hitem : e.nextInner item = .ok (e', cut)) :
    CutSpec e e' cut := by
  cases item with
  | windowStatus status => exact window_cut h hitem
  | group g => exact group_cut h hitem

end RiskEngine

end PredictionIndexer.Engine
