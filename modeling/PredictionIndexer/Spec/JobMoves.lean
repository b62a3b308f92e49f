import PredictionIndexer.Jobs.Store

/-!
# Moves of a job

What the constructor of a row checks, as facts, and what every transition does to the row: the
columns it keeps, and the move that its event stands for. A move is between views, which are the
columns an event of the log repeats.
-/

namespace PredictionIndexer.Jobs

open Fallible

/-! ## Checked rows -/

/-- The row of a status other than queued and running. -/
@[mk_iff] structure CheckedOutcome (c : Columns) : Prop where
  stage : c.stage = some .archive
  succeeded : (if c.status.terminal then some c.status else c.pendingOutcome) = some .succeeded →
    c.reasonCode = none
  reason : (if c.status.terminal then some c.status else c.pendingOutcome) ≠ some .succeeded →
    c.reasonCode.bind ReasonCode.outcome =
      if c.status.terminal then some c.status else c.pendingOutcome
  attempts : c.status.terminal = true → c.stageAttempts = 0

/-- What a constructed row has passed. -/
structure Checked (u : Unicode) (c : Columns) : Prop where
  jobId : isJobId c.jobId = true
  created : c.createdAtNs < 2 ^ 64
  submitter : isAddress c.submittedBy = true
  digest : isHex 64 c.requestSha256 = true
  next : ∀ n ∈ c.nextAttemptAtNs, n < 2 ^ 64
  started : ∀ n ∈ c.startedAtNs, n < 2 ^ 64
  finished : ∀ n ∈ c.finishedAtNs, n < 2 ^ 64
  blockedAt : ∀ n ∈ c.blockedAtNs, n < 2 ^ 64
  updated : c.updatedAtNs < 2 ^ 64
  detail : ∀ d ∈ c.reasonDetail, reasonDetail u d = some d
  pending : (c.status = .archiving ∨ c.status = .archiveBlocked) ↔ c.pendingOutcome.isSome = true
  outcome : ∀ o ∈ c.pendingOutcome, o.terminal = true
  blockedCode : c.status = .archiveBlocked ↔ c.blockedReasonCode.isSome = true
  blockedTime : c.status = .archiveBlocked ↔ c.blockedAtNs.isSome = true
  blocks : ∀ code ∈ c.blockedReasonCode, code.blocksArchive = true
  finish : c.status.terminal = c.finishedAtNs.isSome
  receipt : c.status.terminal = c.archiveReceiptKey.isSome
  receiptKey : ∀ key ∈ c.archiveReceiptKey, key = jobReceiptKey c.jobId
  scheduled : c.nextAttemptAtNs ≠ none → c.status.resumable = true
  queued : c.status = .queued →
    c.stage = none ∧ c.stageAttempts = 0 ∧ c.startedAtNs = none ∧ c.reasonCode = none
  running : c.status = .running → (∃ s ∈ c.stage, s.isWork = true) ∧ 1 ≤ c.stageAttempts ∧
    c.startedAtNs ≠ none ∧ ∀ code ∈ c.reasonCode, code.retryable = true
  archived : c.status ≠ .queued → c.status ≠ .running → CheckedOutcome c

theorem checkNs_eq_ok {n : Nat} {name : String} {x : Unit} :
    checkNs n name = .ok x ↔ n < 2 ^ 64 := by
  simp [checkNs]

theorem checkOptionalNs_eq_ok {n : Option Nat} {name : String} {x : Unit} :
    checkOptionalNs n name = .ok x ↔ ∀ m ∈ n, m < 2 ^ 64 := by
  cases n with
  | none => simp [checkOptionalNs]
  | some n => simp [checkOptionalNs, checkNs_eq_ok]

theorem isSome_of_mem {α : Type} {a : α} {x : Option α} (h : a ∈ x) : x.isSome = true := by
  cases h
  rfl

theorem all_eq_true_iff {α : Type} {p : α → Bool} {x : Option α} :
    x.all p = true ↔ ∀ a ∈ x, p a = true := by
  cases x <;> simp

theorem any_eq_true_iff {α : Type} {p : α → Bool} {x : Option α} :
    x.any p = true ↔ ∃ a ∈ x, p a = true := by
  cases x <;> simp

section Checked

variable {u : Unicode} {c : Columns} {x : Unit}

theorem checkStatus_queued (h : c.status = .queued) : c.checkStatus = .ok x ↔
    c.stage = none ∧ c.stageAttempts = 0 ∧ c.startedAtNs = none ∧ c.reasonCode = none := by
  simp [Columns.checkStatus, h, and_assoc]

theorem checkStatus_running (h : c.status = .running) : c.checkStatus = .ok x ↔
    (∃ s ∈ c.stage, s.isWork = true) ∧ 1 ≤ c.stageAttempts ∧ c.startedAtNs ≠ none ∧
      ∀ code ∈ c.reasonCode, code.retryable = true := by
  unfold Columns.checkStatus
  simp only [h, Except.bind_eq_ok, require_eq_ok, exists_const, Bool.and_eq_true,
    any_eq_true_iff, all_eq_true_iff, decide_eq_true_eq, Option.isSome_iff_ne_none, and_assoc]

theorem checkStatus_archived (hqueued : c.status ≠ .queued) (hrunning : c.status ≠ .running) :
    c.checkStatus = .ok x ↔ CheckedOutcome c := by
  have hmatch : c.checkStatus = (do
      require (c.stage = some .archive) "archiving and terminal rows are in stage archive"
      let outcome := if c.status.terminal then some c.status else c.pendingOutcome
      if outcome = some .succeeded then
        require c.reasonCode.isNone "succeeded has no reason code"
      else
        require (c.reasonCode.bind ReasonCode.outcome = outcome)
          (outcome.elim "None" Status.text ++ " requires a matching reason code")
      if c.status.terminal then require (c.stageAttempts = 0) "terminal rows hold no attempt") := by
    unfold Columns.checkStatus
    cases hs : c.status <;> first | exact absurd hs hqueued | exact absurd hs hrunning | rfl
  rw [hmatch, checkedOutcome_iff, Except.bind_eq_ok]
  simp only [require_eq_ok, exists_const, decide_eq_true_eq]
  refine and_congr_right fun _ => ?_
  generalize (if c.status.terminal then some c.status else c.pendingOutcome) = outcome
  by_cases hsucceeded : outcome = some .succeeded
  · simp only [hsucceeded, if_true, Except.bind_eq_ok, require_eq_ok, exists_const]
    cases c.status.terminal <;> simp
  · simp only [hsucceeded, if_false, Except.bind_eq_ok, require_eq_ok, exists_const]
    cases c.status.terminal <;> simp [hsucceeded]

theorem checkStatus_eq_ok_iff : c.checkStatus = .ok x ↔
    (c.status = .queued → c.stage = none ∧ c.stageAttempts = 0 ∧ c.startedAtNs = none ∧
      c.reasonCode = none) ∧
    (c.status = .running → (∃ s ∈ c.stage, s.isWork = true) ∧ 1 ≤ c.stageAttempts ∧
      c.startedAtNs ≠ none ∧ ∀ code ∈ c.reasonCode, code.retryable = true) ∧
    (c.status ≠ .queued → c.status ≠ .running → CheckedOutcome c) := by
  by_cases hqueued : c.status = .queued
  · rw [checkStatus_queued hqueued]
    simp [hqueued]
  · by_cases hrunning : c.status = .running
    · rw [checkStatus_running hrunning]
      simp [hrunning]
    · rw [checkStatus_archived hqueued hrunning]
      simp [hqueued, hrunning]

theorem check_eq_ok_iff : c.check u = .ok x ↔ Checked u c := by
  unfold Columns.check
  simp only [Except.bind_eq_ok, require_eq_ok, checkNs_eq_ok, checkOptionalNs_eq_ok, exists_const,
    checkStatus_eq_ok_iff, all_eq_true_iff, Bool.and_eq_true, Bool.or_eq_true, decide_eq_true_eq]
  constructor
  · rintro ⟨hid, hcreated, hsubmitter, hdigest, hnext, hstarted, hfinished, hblockedAt, hupdated,
      hdetail, hpending, houtcome, ⟨hblocked, hclear⟩, hblocks, ⟨hfinish, hreceipt⟩, hkey,
      hscheduled, hqueued, hrunning, harchived⟩
    refine ⟨hid, hcreated, hsubmitter, hdigest, hnext, hstarted, hfinished, hblockedAt, hupdated,
      hdetail, ?_, houtcome, ?_, ?_, hblocks, hfinish, hreceipt, hkey, ?_, hqueued, hrunning,
      harchived⟩
    · rw [← hpending]
      simp
    · by_cases hb : c.status = .archiveBlocked
      · simp_all
      · simp_all
    · by_cases hb : c.status = .archiveBlocked
      · simp_all
      · simp_all
    · intro hne
      simpa [hne] using hscheduled
  · intro h
    refine ⟨h.jobId, h.created, h.submitter, h.digest, h.next, h.started, h.finished, h.blockedAt,
      h.updated, h.detail, ?_, h.outcome, ⟨?_, ?_⟩, h.blocks, ⟨h.finish, h.receipt⟩, h.receiptKey,
      ?_, h.queued, h.running, h.archived⟩
    · rw [Bool.eq_iff_iff, ← h.pending]
      simp
    · rw [Bool.eq_iff_iff, Bool.and_eq_true, ← h.blockedCode, ← h.blockedTime]
      simp
    · by_cases hb : c.status = .archiveBlocked
      · exact .inl hb
      · have hcode := fun hsome => hb (h.blockedCode.mpr hsome)
        have htime := fun hsome => hb (h.blockedTime.mpr hsome)
        right
        constructor
        · simpa using hcode
        · simpa using htime
    · cases hn : c.nextAttemptAtNs with
      | none => exact .inl rfl
      | some n => exact .inr (h.scheduled (by simp [hn]))

end Checked

theorem JobRow.checked {u : Unicode} (row : JobRow u) : Checked u row.toColumns :=
  check_eq_ok_iff.mp row.valid

/-! ## Moves -/

/-- What an event repeats of a row. -/
structure View where
  status : Status
  stage : Option Stage
  stageAttempts : Nat
  pendingOutcome : Option Status
  reasonCode : Option ReasonCode
deriving DecidableEq

def Columns.view (c : Columns) : View where
  status := c.status
  stage := c.stage
  stageAttempts := c.stageAttempts
  pendingOutcome := c.pendingOutcome
  reasonCode := c.reasonCode

def Event.view (e : Event) : View where
  status := e.status
  stage := e.stage
  stageAttempts := e.stageAttempts
  pendingOutcome := e.pendingOutcome
  reasonCode := e.reasonCode

/-- A job as it is submitted. -/
def queuedView : View := ⟨.queued, none, 0, none, none⟩

/-- What each event stands for, where a stage has so many attempts. -/
inductive Moves (attempts : Nat) : EventType → View → View → Prop
  | cancelled :
      Moves attempts .cancelled queuedView ⟨.archiving, some .archive, 0, some .cancelled, some .cancelled⟩
  | started : Moves attempts .claimedInitialize queuedView ⟨.running, some .resolve, 1, none, none⟩
  | claimed {v : View} {e : EventType} : v.status.resumable = true → v.stageAttempts < attempts →
      e = .claimedInitialize ∨ e = .claimedResume →
      Moves attempts e v { v with stageAttempts := v.stageAttempts + 1 }
  | advanced {v : View} {stage : Option Stage} : v.status = .running →
      follows stage v.stage = true →
      Moves attempts .stageAdvanced v { v with stage := stage, stageAttempts := 1, reasonCode := none }
  | retried {v : View} {code : Option ReasonCode} : v.status = .running →
      Moves attempts .retryScheduled v { v with reasonCode := code }
  | waited {v : View} : v.status = .archiving → Moves attempts .retryScheduled v v
  | succeeded {v : View} : v.status = .running → v.pendingOutcome = none → v.stage = some .read →
      Moves attempts .outcomePending v ⟨.archiving, some .archive, 1, some .succeeded, none⟩
  | failed {v : View} {code : ReasonCode} {outcome : Status} : v.status = .running →
      v.pendingOutcome = none → code.outcome = some outcome → code ≠ .cancelled →
      Moves attempts .outcomePending v ⟨.archiving, some .archive, 1, some outcome, some code⟩
  | replaced {v : View} : v.status = .archiving →
      Moves attempts .outcomeReplaced v
        { v with pendingOutcome := some .failed, reasonCode := some .localStateLost }
  | blocked {v : View} : v.status = .archiving →
      Moves attempts .archiveBlocked v { v with status := .archiveBlocked }
  | resumed {v : View} : v.status = .archiveBlocked →
      Moves attempts .archiveResumed v { v with status := .archiving, stageAttempts := 0 }
  | finished {v : View} {outcome : Status} : v.status = .archiving →
      v.pendingOutcome = some outcome → outcome.terminal = true →
      Moves attempts .finished v ⟨outcome, v.stage, 0, none, v.reasonCode⟩

theorem status_of_outcomePending {attempts : Nat} {v w : View}
    (h : Moves attempts .outcomePending v w) : w.status = .archiving := by
  cases h with
  | claimed _ _ he => simp at he
  | succeeded => rfl
  | failed => rfl

/-- The columns that identify a job. -/
structure SameJob (before after : Columns) : Prop where
  jobId : after.jobId = before.jobId
  createdAtNs : after.createdAtNs = before.createdAtNs
  submittedBy : after.submittedBy = before.submittedBy
  requestSha256 : after.requestSha256 = before.requestSha256

section Transitions

variable {u : Unicode} {row after : JobRow u} {o : Orchestration} {nowNs : Nat}
  {code : ReasonCode} {detail : Option String} {stage : Option Stage} {finished : Option Nat}

theorem view_queued (h : row.status = .queued) : row.view = queuedView := by
  obtain ⟨hstage, hattempts, -, hreason⟩ := row.checked.queued h
  have hpending : row.pendingOutcome = none := by
    have := row.checked.pending
    simpa [h] using this
  simp [Columns.view, queuedView, h, hstage, hattempts, hreason, hpending]

theorem pending_of_running (h : row.status = .running) : row.pendingOutcome = none := by
  have := row.checked.pending
  simpa [h] using this

theorem enterArchiving_eq_ok_iff {outcome : Status} {code : Option ReasonCode} :
    enterArchiving row outcome code detail nowNs = .ok after ↔
      after.toColumns = { row.toColumns with
        status := .archiving
        stage := some .archive
        stageAttempts := if row.status = .queued then 0 else 1
        pendingOutcome := some outcome
        reasonCode := code
        reasonDetail := detailOf u detail
        nextAttemptAtNs := none
        updatedAtNs := nowNs } :=
  construct_eq_ok_iff

/-- A row that runs is archived with an outcome. -/
theorem sameJob_of_enterArchiving {outcome : Status} {code : Option ReasonCode}
    (h : enterArchiving row outcome code detail nowNs = .ok after) :
    SameJob row.toColumns after.toColumns := by
  rw [enterArchiving_eq_ok_iff.mp h]
  exact ⟨rfl, rfl, rfl, rfl⟩

theorem succeed_spec (h : succeed row nowNs = .ok after) :
    SameJob row.toColumns after.toColumns ∧
      Moves o.maxStageAttempts .outcomePending row.view after.view := by
  unfold succeed at h
  simp only [Except.bind_eq_ok, require_eq_ok, exists_const, Bool.and_eq_true,
    decide_eq_true_eq] at h
  obtain ⟨⟨hrunning, hread⟩, henter⟩ := h
  refine ⟨sameJob_of_enterArchiving henter, ?_⟩
  have hview : after.view = ⟨.archiving, some .archive, 1, some .succeeded, none⟩ := by
    rw [enterArchiving_eq_ok_iff.mp henter]
    simp [Columns.view, hrunning]
  rw [hview]
  exact .succeeded hrunning (pending_of_running hrunning) hread

theorem fail_spec (h : fail row code detail nowNs = .ok after) :
    SameJob row.toColumns after.toColumns ∧
      Moves o.maxStageAttempts .outcomePending row.view after.view := by
  unfold fail at h
  simp only [Except.bind_eq_ok, require_eq_ok, exists_const, decide_eq_true_eq] at h
  obtain ⟨hrunning, h⟩ := h
  split at h
  next outcome houtcome =>
    simp only [Except.bind_eq_ok, require_eq_ok, exists_const, decide_eq_true_eq] at h
    obtain ⟨hcode, henter⟩ := h
    refine ⟨sameJob_of_enterArchiving henter, ?_⟩
    have hview : after.view = ⟨.archiving, some .archive, 1, some outcome, some code⟩ := by
      rw [enterArchiving_eq_ok_iff.mp henter]
      simp [Columns.view, hrunning]
    rw [hview]
    exact .failed hrunning (pending_of_running hrunning) houtcome hcode
  next => cases h

theorem cancel_spec (h : cancel row nowNs = .ok after) :
    SameJob row.toColumns after.toColumns ∧
      Moves o.maxStageAttempts .cancelled row.view after.view := by
  unfold cancel at h
  simp only [Except.bind_eq_ok, require_eq_ok, exists_const, decide_eq_true_eq] at h
  obtain ⟨hqueued, henter⟩ := h
  refine ⟨sameJob_of_enterArchiving henter, ?_⟩
  have hview : after.view = ⟨.archiving, some .archive, 0, some .cancelled, some .cancelled⟩ := by
    rw [enterArchiving_eq_ok_iff.mp henter]
    simp [Columns.view, hqueued]
  rw [hview, view_queued hqueued]
  exact .cancelled

/-- An archiving row that loses its local state. -/
theorem loseLocalState_spec (harchiving : row.status = .archiving)
    (h : loseLocalState row detail nowNs = .ok after) :
    SameJob row.toColumns after.toColumns ∧
      Moves o.maxStageAttempts .outcomeReplaced row.view after.view := by
  unfold loseLocalState at h
  simp only [Except.bind_eq_ok, require_eq_ok, exists_const, harchiving, reduceCtorEq, if_false,
    construct_eq_ok_iff] at h
  have hview : after.view = { row.view with
      pendingOutcome := some .failed, reasonCode := some .localStateLost } := by
    rw [h.2]
    simp [Columns.view, harchiving]
  rw [hview, h.2]
  exact ⟨⟨rfl, rfl, rfl, rfl⟩, .replaced harchiving⟩

theorem blockArchive_spec (h : blockArchive row code nowNs = .ok after) :
    SameJob row.toColumns after.toColumns ∧ after.status = .archiveBlocked ∧
      row.status = .archiving ∧ Moves o.maxStageAttempts .archiveBlocked row.view after.view := by
  unfold blockArchive at h
  simp only [Except.bind_eq_ok, require_eq_ok, exists_const, decide_eq_true_eq,
    construct_eq_ok_iff] at h
  obtain ⟨harchiving, -, hafter⟩ := h
  have hview : after.view = { row.view with status := .archiveBlocked } := by
    rw [hafter]
    rfl
  rw [hview, hafter]
  exact ⟨⟨rfl, rfl, rfl, rfl⟩, rfl, harchiving, .blocked harchiving⟩

theorem resumeBlocked_spec (h : resumeBlocked row nowNs = .ok after) :
    SameJob row.toColumns after.toColumns ∧
      Moves o.maxStageAttempts .archiveResumed row.view after.view := by
  unfold resumeBlocked at h
  simp only [Except.bind_eq_ok, require_eq_ok, exists_const, decide_eq_true_eq,
    construct_eq_ok_iff] at h
  obtain ⟨hblocked, hafter⟩ := h
  have hview : after.view = { row.view with status := .archiving, stageAttempts := 0 } := by
    rw [hafter]
    rfl
  rw [hview, hafter]
  exact ⟨⟨rfl, rfl, rfl, rfl⟩, .resumed hblocked⟩

theorem advance_spec (h : advance row stage nowNs = .ok after) :
    SameJob row.toColumns after.toColumns ∧
      Moves o.maxStageAttempts .stageAdvanced row.view after.view := by
  unfold advance at h
  simp only [Except.bind_eq_ok, require_eq_ok, exists_const, decide_eq_true_eq,
    construct_eq_ok_iff] at h
  obtain ⟨hrunning, hfollows, hafter⟩ := h
  have hview : after.view = { row.view with
      stage := stage, stageAttempts := 1, reasonCode := none } := by
    rw [hafter]
    rfl
  rw [hview, hafter]
  exact ⟨⟨rfl, rfl, rfl, rfl⟩, .advanced hrunning hfollows⟩

theorem finish_spec (h : finish row finished nowNs = .ok after) :
    SameJob row.toColumns after.toColumns ∧
      Moves o.maxStageAttempts .finished row.view after.view := by
  unfold finish at h
  simp only [Except.bind_eq_ok, require_eq_ok, exists_const, decide_eq_true_eq] at h
  obtain ⟨harchiving, h⟩ := h
  split at h
  next _ time outcome houtcome =>
    simp only [Except.bind_eq_ok, construct_eq_ok_iff] at h
    obtain ⟨_, -, _, -, _, -, hafter⟩ := h
    have hview : after.view = ⟨outcome, row.stage, 0, none, row.reasonCode⟩ := by
      rw [hafter]
      rfl
    rw [hview, hafter]
    exact ⟨⟨rfl, rfl, rfl, rfl⟩,
      .finished harchiving houtcome (row.checked.outcome outcome houtcome)⟩
  next => cases h
  next => cases h

/-- The event of a claim tells what the claim did. -/
theorem claim_spec (h : claim o row nowNs = .ok after) :
    SameJob row.toColumns after.toColumns ∧
      Moves o.maxStageAttempts (Tables.claimEvent row.toColumns after.toColumns) row.view
        after.view := by
  unfold claim at h
  simp only at h
  split at h
  next hqueued =>
    rw [construct_eq_ok_iff] at h
    have hevent : Tables.claimEvent row.toColumns after.toColumns = .claimedInitialize := by
      rw [h]
      simp [Tables.claimEvent, Tables.initializes, hqueued]
    have hview : after.view = ⟨.running, some .resolve, 1, none, none⟩ := by
      rw [h]
      have hrow := view_queued hqueued
      simp only [Columns.view, queuedView, View.mk.injEq] at hrow ⊢
      exact ⟨trivial, trivial, trivial, hrow.2.2.2.1, hrow.2.2.2.2⟩
    rw [hevent, hview, view_queued hqueued, h]
    exact ⟨⟨rfl, rfl, rfl, rfl⟩, .started⟩
  next hqueued =>
    simp only [Except.bind_eq_ok, require_eq_ok, exists_const] at h
    obtain ⟨hclaimable, h⟩ := h
    have hresumable : row.status.resumable = true := by
      unfold Columns.claimable at hclaimable
      simp only [Bool.and_eq_true] at hclaimable
      exact hclaimable.1
    -- one attempt more, where the budget has one left
    have hagain (hlt : row.stageAttempts < o.maxStageAttempts)
        (hafter : after.toColumns = { row.toColumns with
          stageAttempts := row.stageAttempts + 1
          nextAttemptAtNs := some (nowNs + o.backoff)
          updatedAtNs := nowNs }) : SameJob row.toColumns after.toColumns ∧
        Moves o.maxStageAttempts (Tables.claimEvent row.toColumns after.toColumns) row.view
          after.view := by
      have hview : after.view = { row.view with stageAttempts := row.view.stageAttempts + 1 } := by
        rw [hafter]
        rfl
      rw [hview, hafter]
      refine ⟨⟨rfl, rfl, rfl, rfl⟩, .claimed hresumable hlt ?_⟩
      unfold Tables.claimEvent
      unfold Status.resumable at hresumable
      rcases (by simpa using hresumable : row.status = .running ∨ row.status = .archiving) with
        hs | hs
      · simp only [hs, reduceCtorEq, if_false, decide_false, Bool.and_false, Bool.false_eq_true]
        split <;> simp
      · simp only [hs, reduceCtorEq, if_false, decide_false, Bool.false_and, Bool.false_eq_true]
        split <;> simp
    split at h
    next hrunning =>
      have hfailed {code : ReasonCode} {detail : Option String}
          (hfail : fail row code detail nowNs = .ok after) :
          SameJob row.toColumns after.toColumns ∧
          Moves o.maxStageAttempts (Tables.claimEvent row.toColumns after.toColumns) row.view
            after.view := by
        obtain ⟨hsame, hmoves⟩ := fail_spec (o := o) hfail
        have harchiving : after.status = .archiving := status_of_outcomePending hmoves
        have hevent : Tables.claimEvent row.toColumns after.toColumns = .outcomePending := by
          simp [Tables.claimEvent, harchiving, hrunning]
        rw [hevent]
        exact ⟨hsame, hmoves⟩
      split at h
      next => cases h
      next started _ =>
        split at h
        next => exact hfailed h
        next =>
          split at h
          next => exact hfailed h
          next hlt => exact hagain (by omega) (construct_eq_ok_iff.mp h)
    next hrunning =>
      split at h
      next =>
        obtain ⟨hsame, hblocked, -, hmoves⟩ := blockArchive_spec (o := o) h
        have hevent : Tables.claimEvent row.toColumns after.toColumns = .archiveBlocked := by
          simp [Tables.claimEvent, hblocked]
        rw [hevent]
        exact ⟨hsame, hmoves⟩
      next hlt => exact hagain (by omega) (construct_eq_ok_iff.mp h)

/-! ### What is saved -/

theorem of_orInvalid {x : Except JobError (JobRow u)} (h : orInvalid x = .ok after) :
    x = .ok after := by
  unfold orInvalid at h
  split at h
  · simp [invalidTransition] at h
  · exact h

variable {before : JobRow u} {event : EventType}

theorem runningEvent_spec (hrunning : before.status = .running)
    (h : runningEvent before after = .ok (some event)) :
    Moves o.maxStageAttempts event before.view after.view := by
  unfold runningEvent at h
  rw [Except.bind_eq_ok] at h
  obtain ⟨advanced, hadvanced, h⟩ := h
  split at h
  next htrue =>
    subst htrue
    cases h
    unfold isAdvanced at hadvanced
    split at hadvanced
    next =>
      rw [Except.bind_eq_ok] at hadvanced
      obtain ⟨expected, hexpected, heq⟩ := hadvanced
      obtain rfl : after = expected := of_decide_eq_true (Except.ok.inj heq)
      exact (advance_spec (of_orInvalid hexpected)).2
    next => cases hadvanced
  next =>
    split at h
    next hretried =>
      cases h
      simp only [Bool.and_eq_true, decide_eq_true_eq] at hretried
      have hview : after.view = { before.view with reasonCode := after.reasonCode } := by
        have hcolumns := congrArg Columns.view hretried.2
        exact hcolumns
      rw [hview]
      exact .retried hrunning
    next => cases h

theorem outcomeEvent_spec (h : outcomeEvent before after = .ok (some event)) :
    Moves o.maxStageAttempts event before.view after.view := by
  -- the event is there just where `after` is the row expected
  have hpending {expected : JobRow u} (heq : (if after = expected then some EventType.outcomePending
      else none) = some event) : after = expected ∧ event = .outcomePending := by
    split at heq
    next hafter => exact ⟨hafter, (Option.some.inj heq).symm⟩
    next => cases heq
  unfold outcomeEvent at h
  simp only at h
  split at h
  next =>
    rw [Except.bind_eq_ok] at h
    obtain ⟨expected, hexpected, heq⟩ := h
    obtain ⟨rfl, rfl⟩ := hpending (Except.ok.inj heq)
    exact (succeed_spec hexpected).2
  next =>
    split at h
    next =>
      rw [Except.bind_eq_ok] at h
      obtain ⟨expected, hexpected, heq⟩ := h
      obtain ⟨rfl, rfl⟩ := hpending (Except.ok.inj heq)
      exact (fail_spec (of_orInvalid hexpected)).2
    next => cases h

theorem archivingEvent_spec (harchiving : before.status = .archiving)
    (h : archivingEvent before after = .ok (some event)) :
    Moves o.maxStageAttempts event before.view after.view := by
  unfold archivingEvent at h
  rw [Except.bind_eq_ok] at h
  obtain ⟨replaced, hreplaced, h⟩ := h
  split at h
  next htrue =>
    subst htrue
    cases h
    unfold isReplaced at hreplaced
    split at hreplaced
    next =>
      rw [Except.bind_eq_ok] at hreplaced
      obtain ⟨expected, hexpected, heq⟩ := hreplaced
      obtain rfl : after = expected := of_decide_eq_true (Except.ok.inj heq)
      exact (loseLocalState_spec harchiving hexpected).2
    next => cases hreplaced
  next =>
    split at h
    next hretried =>
      cases h
      simp only [Bool.and_eq_true, decide_eq_true_eq] at hretried
      have hview : after.view = before.view := by
        have hcolumns := congrArg Columns.view hretried.2
        exact hcolumns
      rw [hview]
      exact .waited harchiving
    next => cases h

/-- The recogniser accepts moves only. -/
theorem recognise_spec (h : recognise before after = .ok (some event)) :
    Moves o.maxStageAttempts event before.view after.view := by
  unfold recognise at h
  split at h
  next hb _ => exact runningEvent_spec hb h
  next => exact outcomeEvent_spec h
  next hb _ => exact archivingEvent_spec hb h
  next =>
    split at h
    next =>
      rw [Except.bind_eq_ok] at h
      obtain ⟨expected, hexpected, heq⟩ := h
      have hif := Except.ok.inj heq
      split at hif
      next hafter =>
        subst hafter
        cases hif
        exact (blockArchive_spec hexpected).2.2.2
      next => cases hif
    next => cases h
  next =>
    rw [Except.bind_eq_ok] at h
    obtain ⟨expected, hexpected, heq⟩ := h
    have hif := Except.ok.inj heq
    split at hif
    next hafter =>
      subst hafter
      cases hif
      exact (resumeBlocked_spec hexpected).2
    next => cases hif
  next =>
    split at h
    next =>
      rw [Except.bind_eq_ok] at h
      obtain ⟨expected, hexpected, heq⟩ := h
      have hif := Except.ok.inj heq
      split at hif
      next hafter =>
        subst hafter
        cases hif
        exact (finish_spec hexpected).2
      next => cases hif
    next => cases h
  next => cases h

theorem transitionEvent_spec (h : transitionEvent before after = .ok event) :
    SameJob before.toColumns after.toColumns ∧
      Moves o.maxStageAttempts event before.view after.view := by
  unfold transitionEvent at h
  simp only [Except.bind_eq_ok, raiseIf_eq_ok, exists_const] at h
  obtain ⟨hidentity, recognised, hrecognised, h⟩ := h
  unfold sameIdentity at hidentity
  simp only [Bool.not_eq_false', Bool.and_eq_true, decide_eq_true_eq] at hidentity
  obtain ⟨⟨⟨⟨hid, hcreated⟩, hby⟩, hdigest⟩, -⟩ := hidentity
  cases recognised with
  | none => cases h
  | some recognised =>
    cases h
    exact ⟨⟨hid.symm, hcreated.symm, hby.symm, hdigest.symm⟩, recognise_spec hrecognised⟩

end Transitions

end PredictionIndexer.Jobs
