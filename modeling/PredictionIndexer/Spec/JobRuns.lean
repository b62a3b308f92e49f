import PredictionIndexer.ForStd.Journal
import PredictionIndexer.Spec.JobMoves

/-!
# Runs of the job store

Submissions, cancellations, claims and saves, in any order and by anyone. The rows, the submissions
and the event log stay in step: the events of a job are its life from the queue on, move by move,
and the last of them is the row. What no move leaves stays for good, and a row that is saved is the
row that was read.
-/

namespace PredictionIndexer.Jobs

open Fallible Journal

/-! ## Operations -/

/-- What is configured. -/
structure JobsConfig where
  limits : Limits
  orchestration : Orchestration

/-- An operation, with its arguments. -/
inductive Op (u : Unicode) where
  | submit (requestBytes : List UInt8) (requestHash : String) (principal : Principal)
      (key : String) (nowNs : Nat) (bundleExists : Bool) (suffix : Nat → String)
  | cancelJob (id : String) (principal : Principal) (nowNs : Nat)
  | claimNext (nowNs : Nat)
  | save (before after : JobRow u)

variable {u : Unicode}

/-- The tables behind an operation. -/
def Tables.exec (config : JobsConfig) (t : Tables) (op : Op u) : Except JobError Tables :=
  match op with
  | .submit requestBytes requestHash principal key nowNs bundleExists suffix =>
    (t.submit u config.limits requestBytes requestHash principal key nowNs bundleExists suffix).map
      Prod.snd
  | .cancelJob id principal nowNs => (t.cancelJob u id principal nowNs).map Prod.snd
  | .claimNext nowNs => (t.claimNext u config.orchestration nowNs).map Prod.snd
  | .save before after => (t.save before after).map Prod.snd

/-- An operation that raises is rolled back. -/
def Tables.step (config : JobsConfig) (t : Tables) (op : Op u) : Tables :=
  match t.exec config op with
  | .ok t' => t'
  | .error _ => t

def Tables.run (config : JobsConfig) (t : Tables) (ops : List (Op u)) : Tables :=
  ops.foldl (Tables.step config) t

/-! ## What the tables are -/

/-- The rows, as the events repeat them. -/
def Tables.rows (t : Tables) (id : String) : Option View := (t.find id).map (·.columns.view)

def Event.entry (e : Event) : String × EventType × View := (e.jobId, e.eventType, e.view)

/-- The events as a journal of views. -/
def Tables.log (t : Tables) : List (String × EventType × View) := t.events.map Event.entry

/-- The first event of a job. -/
def IsSubmitted (event : EventType) (v : View) : Prop := event = .submitted ∧ v = queuedView

/-- Two submissions of one key. -/
def SameKey (a b : Submission) : Prop :=
  a.submittedBy = b.submittedBy ∧ a.idempotencyKey = b.idempotencyKey

/-- What holds of the tables between two operations. -/
structure Sound (u : Unicode) (attempts : Nat) (t : Tables) : Prop where
  ids : (t.jobs.map (·.columns.jobId)).Nodup
  checked : ∀ job ∈ t.jobs, Checked u job.columns
  journal : Journaled IsSubmitted (Moves attempts) t.rows t.log
  keys : t.submissions.Pairwise fun a b => ¬SameKey a b
  submitted : ∀ s ∈ t.submissions, ∃ job, t.find s.jobId = some job ∧
    job.columns.submittedBy = s.submittedBy ∧ job.columns.requestSha256 = s.requestSha256

/-- A job is submitted. -/
structure Created (u : Unicode) (t t' : Tables) (row : Columns) (submission : Submission) : Prop where
  fresh : t.find row.jobId = none
  jobs : ∃ request, t'.jobs = t.jobs ++ [⟨row, request⟩]
  submissions : t'.submissions = t.submissions ++ [submission]
  events : ∃ nowNs, t'.events = t.events ++ [Tables.eventOf row .submitted nowNs]
  queued : row.view = queuedView
  checked : Checked u row
  unused : ∀ s ∈ t.submissions, ¬SameKey s submission
  names : submission.jobId = row.jobId ∧ submission.submittedBy = row.submittedBy ∧
    submission.requestSha256 = row.requestSha256

/-- A job moves on. -/
structure Moved (u : Unicode) (attempts : Nat) (t t' : Tables) (before after : Columns)
    (event : EventType) : Prop where
  found : ∃ request, t.find before.jobId = some ⟨before, request⟩
  jobs : t'.jobs = t.jobs.map (Tables.replaceRow before after)
  submissions : t'.submissions = t.submissions
  events : ∃ nowNs, t'.events = t.events ++ [Tables.eventOf after event nowNs]
  same : SameJob before after
  moves : Moves attempts event before.view after.view
  checked : Checked u after

/-! ## Finding rows -/

section Find

variable {t t' : Tables} {id : String} {job : StoredJob} {before after : Columns}
  {event : EventType} {attempts : Nat} {submission : Submission}

theorem find_some (h : t.find id = some job) : job ∈ t.jobs ∧ job.columns.jobId = id := by
  have hid := List.find?_some h
  exact ⟨List.mem_of_find?_eq_some h, by simpa using hid⟩

theorem find_of_mem (hids : (t.jobs.map (·.columns.jobId)).Nodup) (hjob : job ∈ t.jobs) :
    t.find job.columns.jobId = some job := by
  unfold Tables.find
  have hinj := List.inj_on_of_nodup_map hids
  cases hfind : t.jobs.find? (fun j => decide (j.columns.jobId = job.columns.jobId)) with
  | none =>
    have hnone := List.find?_eq_none.mp hfind job hjob
    simp at hnone
  | some other =>
    have hother := List.find?_some hfind
    have heq := hinj (List.mem_of_find?_eq_some hfind) hjob (by simpa using hother)
    rw [heq]

theorem matchesRow_self (c : Columns) : Tables.matchesRow c c = true := by
  simp [Tables.matchesRow]

/-- Where the ids are distinct, a row matches just if it is the one that was read. -/
theorem matchesRow_iff (hids : (t.jobs.map (·.columns.jobId)).Nodup) {request : List UInt8}
    (hfound : t.find before.jobId = some ⟨before, request⟩) (hjob : job ∈ t.jobs) :
    Tables.matchesRow before job.columns = true ↔ job.columns.jobId = before.jobId := by
  constructor
  · intro h
    unfold Tables.matchesRow at h
    simp only [Bool.and_eq_true, decide_eq_true_eq] at h
    exact h.1.1.1.1
  · intro h
    have hfind := find_of_mem hids hjob
    rw [h, hfound] at hfind
    cases hfind
    exact matchesRow_self before

theorem jobId_replaceRow (hsame : SameJob before after) (job : StoredJob) :
    (Tables.replaceRow before after job).columns.jobId = job.columns.jobId := by
  unfold Tables.replaceRow
  split
  next h =>
    unfold Tables.matchesRow at h
    simp only [Bool.and_eq_true, decide_eq_true_eq] at h
    exact hsame.jobId.trans h.1.1.1.1.symm
  next => rfl

theorem Moved.ids (h : Moved u attempts t t' before after event) :
    t'.jobs.map (·.columns.jobId) = t.jobs.map (·.columns.jobId) := by
  rw [h.jobs, List.map_map]
  exact List.map_congr_left fun job _ => jobId_replaceRow h.same job

/-- Behind a move the job has its new row, and every other job the row it had. -/
theorem Moved.find (h : Moved u attempts t t' before after event)
    (hids : (t.jobs.map (·.columns.jobId)).Nodup) (id : String) :
    (t'.find id).map (·.columns) =
      if id = before.jobId then some after else (t.find id).map (·.columns) := by
  obtain ⟨request, hfound⟩ := h.found
  have hpred : (fun job : StoredJob => decide (job.columns.jobId = id)) ∘
      Tables.replaceRow before after = fun job => decide (job.columns.jobId = id) := by
    funext job
    simp [jobId_replaceRow h.same job]
  have hfind : t'.find id = (t.find id).map (Tables.replaceRow before after) := by
    unfold Tables.find
    rw [h.jobs, List.find?_map, hpred]
  rw [hfind]
  by_cases hid : id = before.jobId
  · subst hid
    rw [hfound, if_pos rfl]
    simp [Tables.replaceRow, matchesRow_self]
  · rw [if_neg hid]
    cases hjob : t.find id with
    | none => rfl
    | some job =>
      obtain ⟨hmem, hjobId⟩ := find_some hjob
      have hmatch : Tables.matchesRow before job.columns = false := by
        rw [Bool.eq_false_iff, ne_eq, matchesRow_iff hids hfound hmem, hjobId]
        exact hid
      simp [Tables.replaceRow, hmatch]

theorem Created.find (h : Created u t t' row submission) (id : String) :
    (t'.find id).map (·.columns) =
      if id = row.jobId then some row else (t.find id).map (·.columns) := by
  obtain ⟨request, hjobs⟩ := h.jobs
  unfold Tables.find
  rw [hjobs, List.find?_append]
  by_cases hid : id = row.jobId
  · subst hid
    have hnone : t.jobs.find? (fun job => decide (job.columns.jobId = row.jobId)) = none := h.fresh
    rw [hnone, if_pos rfl]
    simp
  · have hne : row.jobId ≠ id := fun heq => hid heq.symm
    rw [if_neg hid]
    simp [hne]

end Find

/-! ## The two changes keep the tables sound -/

section Sound

variable {t t' : Tables} {row before after : Columns} {event : EventType} {attempts : Nat}
  {submission : Submission}

theorem rows_eq (t : Tables) (id : String) :
    t.rows id = ((t.find id).map (·.columns)).map Columns.view := by
  simp [Tables.rows, Option.map_map, Function.comp_def]

theorem view_eventOf (c : Columns) (event : EventType) (nowNs : Nat) :
    (Tables.eventOf c event nowNs).entry = (c.jobId, event, c.view) := rfl

theorem sound_empty (u : Unicode) (attempts : Nat) : Sound u attempts {} :=
  ⟨List.nodup_nil, by simp, journaled_nil, .nil, by simp⟩

theorem Sound.created (h : Sound u attempts t) (hcreated : Created u t t' row submission) :
    Sound u attempts t' := by
  obtain ⟨request, hjobs⟩ := hcreated.jobs
  obtain ⟨nowNs, hevents⟩ := hcreated.events
  have hfind := hcreated.find
  constructor
  · rw [hjobs, List.map_append, List.map_singleton, List.nodup_append]
    refine ⟨h.ids, List.nodup_singleton _, fun a ha b hb heq => ?_⟩
    obtain ⟨job, hjob, rfl⟩ := List.mem_map.mp ha
    rw [List.mem_singleton.mp hb] at heq
    have hmem := find_of_mem h.ids hjob
    rw [heq, hcreated.fresh] at hmem
    cases hmem
  · intro job hjob
    rw [hjobs] at hjob
    rcases List.mem_append.mp hjob with hjob | hjob
    · exact h.checked job hjob
    · rw [List.mem_singleton.mp hjob]
      exact hcreated.checked
  · have hrows : t'.rows = Function.update t.rows row.jobId (some row.view) := by
      funext id
      rw [rows_eq, hfind]
      by_cases hid : id = row.jobId
      · subst hid
        simp
      · rw [if_neg hid, ← rows_eq, Function.update_of_ne hid]
    have hfresh : t.rows row.jobId = none := by simp [Tables.rows, hcreated.fresh]
    rw [hrows, Tables.log, hevents, List.map_append, List.map_singleton, view_eventOf]
    exact h.journal.create hfresh ⟨rfl, hcreated.queued⟩
  · rw [hcreated.submissions, List.pairwise_append]
    refine ⟨h.keys, List.pairwise_singleton _ _, fun a ha b hb => ?_⟩
    rw [List.mem_singleton.mp hb]
    exact hcreated.unused a ha
  · intro s hs
    obtain ⟨hid, hby, hdigest⟩ := hcreated.names
    rw [hcreated.submissions] at hs
    rcases List.mem_append.mp hs with hs | hs
    · obtain ⟨job, hjob, hcolumns⟩ := h.submitted s hs
      have hne : s.jobId ≠ row.jobId := by
        intro heq
        rw [heq, hcreated.fresh] at hjob
        cases hjob
      have hjob' := hfind s.jobId
      rw [if_neg hne, hjob, Option.map_some, Option.map_eq_some_iff] at hjob'
      obtain ⟨job', hjob', heq⟩ := hjob'
      exact ⟨job', hjob', heq ▸ hcolumns⟩
    · rw [List.mem_singleton.mp hs]
      have hjob' := hfind submission.jobId
      rw [if_pos hid, Option.map_eq_some_iff] at hjob'
      obtain ⟨job', hjob', heq⟩ := hjob'
      exact ⟨job', hjob', by rw [heq, hby], by rw [heq, hdigest]⟩

theorem Sound.moved (h : Sound u attempts t) (hmoved : Moved u attempts t t' before after event) :
    Sound u attempts t' := by
  obtain ⟨request, hfound⟩ := hmoved.found
  obtain ⟨nowNs, hevents⟩ := hmoved.events
  have hfind := hmoved.find h.ids
  constructor
  · rw [hmoved.ids]
    exact h.ids
  · intro job hjob
    rw [hmoved.jobs] at hjob
    obtain ⟨old, hold, rfl⟩ := List.mem_map.mp hjob
    unfold Tables.replaceRow
    split
    · exact hmoved.checked
    · exact h.checked old hold
  · have hrows : t'.rows = Function.update t.rows before.jobId (some after.view) := by
      funext id
      rw [rows_eq, hfind]
      by_cases hid : id = before.jobId
      · subst hid
        simp
      · rw [if_neg hid, ← rows_eq, Function.update_of_ne hid]
    have hrow : t.rows before.jobId = some before.view := by simp [Tables.rows, hfound]
    rw [hrows, Tables.log, hevents, List.map_append, List.map_singleton, view_eventOf,
      hmoved.same.jobId]
    exact h.journal.move hrow hmoved.moves
  · rw [hmoved.submissions]
    exact h.keys
  · intro s hs
    rw [hmoved.submissions] at hs
    obtain ⟨job, hjob, hby, hdigest⟩ := h.submitted s hs
    have hjob' := hfind s.jobId
    by_cases hid : s.jobId = before.jobId
    · rw [if_pos hid, Option.map_eq_some_iff] at hjob'
      obtain ⟨job', hjob', heq⟩ := hjob'
      rw [hid, hfound] at hjob
      cases hjob
      exact ⟨job', hjob', by rw [heq, hmoved.same.submittedBy, hby],
        by rw [heq, hmoved.same.requestSha256, hdigest]⟩
    · rw [if_neg hid, hjob, Option.map_some, Option.map_eq_some_iff] at hjob'
      obtain ⟨job', hjob', heq⟩ := hjob'
      exact ⟨job', hjob', by rw [heq, hby], by rw [heq, hdigest]⟩

end Sound

/-! ## What each operation does -/

section Operations

variable {t t' : Tables} {config : JobsConfig} {nowNs : Nat} {before after : JobRow u}
  {event : EventType} {attempts : Nat}

theorem Sound.request_eq (h : Sound u attempts t) {s : Submission} {job : StoredJob}
    (hs : s ∈ t.submissions) (hjob : t.find s.jobId = some job) :
    ({ job.columns with requestSha256 := s.requestSha256 } : Columns) = job.columns := by
  obtain ⟨job', hjob', -, hdigest⟩ := h.submitted s hs
  rw [hjob] at hjob'
  cases hjob'
  rw [← hdigest]

/-- The update and the event behind it. -/
theorem moved_of_write {stored : StoredJob} {t₁ : Tables}
    (hfound : t.find before.jobId = some stored) (hstored : before.toColumns = stored.columns)
    (hupdate : t.update before.toColumns after.toColumns = .ok t₁)
    (happend : t₁.appendEvent after.toColumns event nowNs = .ok t')
    (hsame : SameJob before.toColumns after.toColumns)
    (hmoves : Moves attempts event before.view after.view) :
    Moved u attempts t t' before.toColumns after.toColumns event := by
  unfold Tables.update at hupdate
  unfold Tables.appendEvent at happend
  simp only [Except.bind_eq_ok, raiseIf_eq_ok, exists_const] at hupdate
  rw [Except.bind_eq_ok] at happend
  obtain ⟨-, -, -, hupdate⟩ := hupdate
  obtain ⟨_, -, happend⟩ := happend
  cases hupdate
  cases happend
  refine ⟨⟨stored.requestJson, ?_⟩, rfl, rfl, ⟨nowNs, rfl⟩, hsame, hmoves, after.checked⟩
  rw [hfound, hstored]

theorem find_of_columns {id : String} {stored : StoredJob} (h : t.find id = some stored)
    (hbefore : before.toColumns = stored.columns) : t.find before.jobId = some stored := by
  have hid : before.jobId = id := by rw [hbefore, (find_some h).2]
  rw [hid, h]

theorem cancelJob_spec {id : String} {principal : Principal}
    (h : t.cancelJob u id principal nowNs = .ok (after, t')) :
    ∃ before : JobRow u, Moved u config.orchestration.maxStageAttempts t t' before.toColumns
      after.toColumns .cancelled := by
  unfold Tables.cancelJob at h
  rw [Except.bind_eq_ok] at h
  obtain ⟨_, -, h⟩ := h
  split at h
  next => cases h
  next stored hfind =>
    simp only [Except.bind_eq_ok, raiseIf_eq_ok, exists_const, construct_eq_ok_iff] at h
    obtain ⟨before, hbefore, -, -, after', hcancel, t₁, hupdate, t₂, happend, h⟩ := h
    cases h
    obtain ⟨hsame, hmoves⟩ := cancel_spec hcancel
    exact ⟨before, moved_of_write (find_of_columns hfind hbefore) hbefore hupdate happend hsame
      hmoves⟩

/-- Whatever the fold starts from, it ends there or in the list. -/
theorem mem_of_foldl_olderOf {jobs : List StoredJob} {best : Option StoredJob} {job : StoredJob}
    (h : jobs.foldl Tables.olderOf best = some job) : job ∈ jobs ∨ best = some job := by
  induction jobs generalizing best with
  | nil => exact .inr h
  | cons first jobs ih =>
    rcases ih h with hmem | hbest
    · exact .inl (List.mem_cons_of_mem _ hmem)
    · unfold Tables.olderOf at hbest
      split at hbest
      · cases hbest
        exact .inl List.mem_cons_self
      · split at hbest
        · cases hbest
          exact .inl List.mem_cons_self
        · exact .inr hbest

theorem mem_of_oldest {jobs : List StoredJob} {job : StoredJob}
    (h : Tables.oldest jobs = some job) : job ∈ jobs := by
  rcases mem_of_foldl_olderOf h with hmem | hnone
  · exact hmem
  · cases hnone

theorem mem_of_selectClaim {job : StoredJob} (h : t.selectClaim nowNs = some job) :
    job ∈ t.jobs := by
  unfold Tables.selectClaim at h
  split at h
  next hresumable =>
    cases h
    exact (List.mem_filter.mp (mem_of_oldest hresumable)).1
  next => exact (List.mem_filter.mp (mem_of_oldest h)).1

theorem claimNext_spec (hsound : Sound u attempts t) {result : Option (ClaimResult u)}
    (h : t.claimNext u config.orchestration nowNs = .ok (result, t')) :
    t' = t ∨ ∃ (before after : JobRow u) (event : EventType),
      Moved u config.orchestration.maxStageAttempts t t' before.toColumns after.toColumns event := by
  unfold Tables.claimNext at h
  rw [Except.bind_eq_ok] at h
  obtain ⟨_, -, h⟩ := h
  split at h
  next =>
    cases h
    exact .inl rfl
  next stored hselect =>
    simp only [Except.bind_eq_ok, construct_eq_ok_iff] at h
    obtain ⟨before, hbefore, after, hclaim, t₁, hupdate, t₂, happend, h⟩ := h
    cases h
    obtain ⟨hsame, hmoves⟩ := claim_spec hclaim
    have hfind := find_of_mem hsound.ids (mem_of_selectClaim hselect)
    exact .inr ⟨before, after, _, moved_of_write (find_of_columns hfind hbefore) hbefore hupdate
      happend hsame hmoves⟩

/-- A save that is accepted moves the row that was read. -/
theorem save_spec {result : JobRow u} (h : t.save before after = .ok (result, t')) :
    ∃ event, Moved u config.orchestration.maxStageAttempts t t' before.toColumns after.toColumns
      event := by
  unfold Tables.save at h
  simp only [Except.bind_eq_ok, raiseIf_eq_ok, exists_const] at h
  obtain ⟨-, event, hevent, h⟩ := h
  obtain ⟨hsame, hmoves⟩ := transitionEvent_spec (o := config.orchestration) hevent
  split at h
  next => cases h
  next stored hfind =>
    simp only [Except.bind_eq_ok, raiseIf_eq_ok, exists_const, construct_eq_ok_iff] at h
    obtain ⟨row, hrow, hread, t₁, hupdate, t₂, happend, h⟩ := h
    cases h
    obtain rfl : row = before := by simpa using hread
    exact ⟨event, moved_of_write hfind hrow hupdate happend hsame hmoves⟩

theorem insertJob_spec {requestBytes : List UInt8} {submittedBy digest : String}
    {suffix : Nat → String} {attempt left : Nat} {row : JobRow u}
    (h : t.insertJob u requestBytes submittedBy digest nowNs suffix attempt left = .ok (row, t')) :
    t.find row.jobId = none ∧ row.status = .queued ∧ row.submittedBy = submittedBy ∧
      row.requestSha256 = digest ∧
      t' = { t with jobs := t.jobs ++ [⟨row.toColumns, requestBytes⟩] } := by
  induction left generalizing attempt with
  | zero => cases h
  | succ left ih =>
    unfold Tables.insertJob at h
    simp only [Except.bind_eq_ok, raiseIf_eq_ok, exists_const] at h
    obtain ⟨id, -, candidate, hcandidate, -, h⟩ := h
    split at h
    next => exact ih h
    next hfresh =>
      simp only [Except.bind_eq_ok, raiseIf_eq_ok, exists_const] at h
      obtain ⟨-, h⟩ := h
      cases h
      unfold newJob at hcandidate
      rw [construct_eq_ok_iff] at hcandidate
      rw [hcandidate]
      exact ⟨hfresh, rfl, rfl, rfl, rfl⟩

/-- A key that is not answered is not used. -/
theorem unused_of_lookup (hsound : Sound u attempts t) {submittedBy key digest : String}
    (h : t.lookupSubmission u submittedBy key digest = .ok none) :
    ∀ s ∈ t.submissions, ¬(s.submittedBy = submittedBy ∧ s.idempotencyKey = key) := by
  intro s hs hkey
  unfold Tables.lookupSubmission at h
  split at h
  next hnone =>
    unfold Tables.submissionOf at hnone
    split at hnone
    next hfind =>
      have := List.find?_eq_none.mp hfind s hs
      simp [hkey] at this
    next submission hfind =>
      obtain ⟨job, hjob, -⟩ := hsound.submitted submission (List.mem_of_find?_eq_some hfind)
      simp [hjob] at hnone
  next =>
    simp only [Except.bind_eq_ok, raiseIf_eq_ok, exists_const] at h
    obtain ⟨-, row, -, h⟩ := h
    cases h

theorem submit_spec (hsound : Sound u attempts t) {requestBytes : List UInt8}
    {requestHash key : String} {principal : Principal} {bundleExists : Bool} {suffix : Nat → String}
    {result : SubmissionResult u} (h : t.submit u config.limits requestBytes requestHash principal key
      nowNs bundleExists suffix = .ok (result, t')) :
    (t.lookupSubmission u principal.address.toLower key requestHash = .ok (some result) ∧ t' = t) ∨
      Created u t t' result.row.toColumns
        ⟨principal.address.toLower, key, requestHash, result.row.jobId, nowNs⟩ := by
  unfold Tables.submit at h
  simp only [Except.bind_eq_ok] at h
  obtain ⟨_, -, existing, hlookup, h⟩ := h
  cases existing with
  | some existing =>
    cases h
    exact .inl ⟨hlookup, rfl⟩
  | none =>
    simp only [Except.bind_eq_ok, Prod.exists] at h
    obtain ⟨_, -, _, -, row, t₁, hinsert, t₂, hsubmission, t₃, happend, h⟩ := h
    cases h
    right
    obtain ⟨hfresh, hqueued, hby, hdigest, rfl⟩ := insertJob_spec hinsert
    unfold Tables.insertSubmission at hsubmission
    simp only [Except.bind_eq_ok, raiseIf_eq_ok, exists_const] at hsubmission
    obtain ⟨-, hsubmission⟩ := hsubmission
    cases hsubmission
    unfold Tables.appendEvent at happend
    rw [Except.bind_eq_ok] at happend
    obtain ⟨_, -, happend⟩ := happend
    cases happend
    exact ⟨hfresh, ⟨requestBytes, rfl⟩, rfl, ⟨nowNs, rfl⟩, view_queued hqueued, row.checked,
      unused_of_lookup hsound hlookup, rfl, hby.symm, hdigest.symm⟩

end Operations

/-! ## Runs -/

section Runs

variable {t t' : Tables} {config : JobsConfig} {op : Op u} {id : String} {job : StoredJob}

theorem map_snd_eq_ok {α : Type} {x : Except JobError (α × Tables)}
    (h : x.map Prod.snd = .ok t') : ∃ a, x = .ok (a, t') := by
  cases x with
  | error e => cases h
  | ok pair => exact ⟨pair.1, by cases h; rfl⟩

/-- What an operation can do to the tables. -/
inductive Steps (u : Unicode) (attempts : Nat) (t t' : Tables) : Prop
  | same : t' = t → Steps u attempts t t'
  | created (row : Columns) (submission : Submission) : Created u t t' row submission →
      Steps u attempts t t'
  | moved (before after : Columns) (event : EventType) : Moved u attempts t t' before after event →
      Steps u attempts t t'

theorem steps_of_exec (hsound : Sound u config.orchestration.maxStageAttempts t)
    (h : t.exec config op = .ok t') : Steps u config.orchestration.maxStageAttempts t t' := by
  cases op with
  | submit requestBytes requestHash principal key nowNs bundleExists suffix =>
    obtain ⟨result, h⟩ := map_snd_eq_ok h
    rcases submit_spec hsound h with ⟨-, hsame⟩ | hcreated
    · exact .same hsame
    · exact .created _ _ hcreated
  | cancelJob id principal nowNs =>
    obtain ⟨after, h⟩ := map_snd_eq_ok h
    obtain ⟨before, hmoved⟩ := cancelJob_spec h
    exact .moved _ _ _ hmoved
  | claimNext nowNs =>
    obtain ⟨result, h⟩ := map_snd_eq_ok h
    rcases claimNext_spec hsound h with hsame | ⟨before, after, event, hmoved⟩
    · exact .same hsame
    · exact .moved _ _ _ hmoved
  | save before after =>
    obtain ⟨result, h⟩ := map_snd_eq_ok h
    obtain ⟨event, hmoved⟩ := save_spec h
    exact .moved _ _ _ hmoved

theorem steps_step (hsound : Sound u config.orchestration.maxStageAttempts t) (op : Op u) :
    Steps u config.orchestration.maxStageAttempts t (t.step config op) := by
  unfold Tables.step
  split
  next h => exact steps_of_exec hsound h
  next => exact .same rfl

theorem Sound.steps {attempts : Nat} (hsound : Sound u attempts t) (h : Steps u attempts t t') :
    Sound u attempts t' := by
  cases h with
  | same h => exact h ▸ hsound
  | created _ _ h => exact hsound.created h
  | moved _ _ _ h => exact hsound.moved h

/-- What the steps keep, a run keeps. -/
theorem run_invariant {P : Tables → Prop}
    (hstep : ∀ t (op : Op u), Sound u config.orchestration.maxStageAttempts t → P t →
      P (t.step config op))
    (hsound : Sound u config.orchestration.maxStageAttempts t) (h : P t) (ops : List (Op u)) :
    Sound u config.orchestration.maxStageAttempts (t.run config ops) ∧ P (t.run config ops) := by
  induction ops generalizing t with
  | nil => exact ⟨hsound, h⟩
  | cons op ops ih => exact ih (hsound.steps (steps_step hsound op)) (hstep t op hsound h)

theorem sound_run (hsound : Sound u config.orchestration.maxStageAttempts t) (ops : List (Op u)) :
    Sound u config.orchestration.maxStageAttempts (t.run config ops) :=
  (run_invariant (P := fun _ => True) (fun _ _ _ _ => trivial) hsound trivial ops).1

/-- A run that comes to a property comes to it in one of its steps. -/
theorem exists_turn {P : Tables → Prop} (ops : List (Op u)) (hstart : ¬P t)
    (hend : P (t.run config ops)) :
    ∃ earlier op later, ops = earlier ++ op :: later ∧ ¬P (t.run config earlier) ∧
      P ((t.run config earlier).step config op) := by
  induction ops generalizing t with
  | nil => exact absurd hend hstart
  | cons op ops ih =>
    by_cases hnext : P (t.step config op)
    · exact ⟨[], op, ops, rfl, hstart, hnext⟩
    · obtain ⟨earlier, op', later, rfl, hbefore, hafter⟩ := ih hnext hend
      exact ⟨op :: earlier, op', later, rfl, hbefore, hafter⟩

/-! ### Moves -/

/-- What a maintainer reads off two events of a job that follow each other. -/
structure LawfulStep (event : EventType) (a b : View) : Prop where
  leaves : a.status.terminal = false
  ends : b.status.terminal = true → a.status = .archiving ∧ a.pendingOutcome = some b.status
  outcome : ∀ p q, a.pendingOutcome = some p → b.pendingOutcome = some q → p ≠ q →
    event = .outcomeReplaced ∧ q = .failed ∧ b.reasonCode = some .localStateLost
  stages : b.status = .running → (a = queuedView ∧ b.stage = some .resolve) ∨
    (a.status = .running ∧ (b.stage = a.stage ∨ follows b.stage a.stage = true))

theorem not_terminal_of_resumable {s : Status} (h : s.resumable = true) : s.terminal = false := by
  cases s <;> first | rfl | cases h

theorem Moves.lawful {attempts : Nat} {event : EventType} {a b : View}
    (h : Moves attempts event a b) : LawfulStep event a b := by
  cases h with
  | cancelled => exact ⟨rfl, by simp [Status.terminal], by simp [queuedView], by simp⟩
  | started => exact ⟨rfl, by simp [Status.terminal], by simp [queuedView], by simp⟩
  | claimed hresumable =>
    have hterminal := not_terminal_of_resumable hresumable
    exact ⟨hterminal, by simp [hterminal], by simp_all, fun h => .inr ⟨h, .inl rfl⟩⟩
  | advanced hrunning hfollows =>
    exact ⟨by simp [hrunning, Status.terminal], by simp [hrunning, Status.terminal], by simp_all,
      fun _ => .inr ⟨hrunning, .inr hfollows⟩⟩
  | retried hrunning =>
    exact ⟨by simp [hrunning, Status.terminal], by simp [hrunning, Status.terminal], by simp_all,
      fun _ => .inr ⟨hrunning, .inl rfl⟩⟩
  | waited harchiving =>
    exact ⟨by simp [harchiving, Status.terminal], by simp [harchiving, Status.terminal],
      by simp_all, by simp [harchiving]⟩
  | succeeded hrunning hpending =>
    exact ⟨by simp [hrunning, Status.terminal], by simp [Status.terminal], by simp [hpending],
      by simp⟩
  | failed hrunning hpending =>
    exact ⟨by simp [hrunning, Status.terminal], by simp [Status.terminal], by simp [hpending],
      by simp⟩
  | replaced harchiving =>
    exact ⟨by simp [harchiving, Status.terminal], by simp [harchiving, Status.terminal],
      fun p q hp hq hne => ⟨rfl, (Option.some.inj hq).symm, rfl⟩, by simp [harchiving]⟩
  | blocked harchiving =>
    exact ⟨by simp [harchiving, Status.terminal], by simp [Status.terminal], by simp_all, by simp⟩
  | resumed hblocked =>
    exact ⟨by simp [hblocked, Status.terminal], by simp [Status.terminal], by simp_all, by simp⟩
  | finished harchiving houtcome hterminal =>
    refine ⟨by simp [harchiving, Status.terminal], fun _ => ⟨harchiving, houtcome⟩, by simp,
      fun hrunning => ?_⟩
    have hfalse : Status.running.terminal = true := hrunning ▸ hterminal
    cases hfalse

theorem Moves.attempts_le {attempts : Nat} (hpos : 0 < attempts) {event : EventType} {a b : View}
    (h : Moves attempts event a b) (ha : a.stageAttempts ≤ attempts) :
    b.stageAttempts ≤ attempts := by
  cases h with
  | cancelled => exact Nat.zero_le _
  | started => exact hpos
  | claimed _ hlt => exact hlt
  | advanced => exact hpos
  | retried => exact ha
  | waited => exact ha
  | succeeded => exact hpos
  | failed => exact hpos
  | replaced => exact ha
  | blocked => exact ha
  | resumed => exact Nat.zero_le _
  | finished => exact Nat.zero_le _

/-! ### Rows that stay -/

/-- The columns of a job. -/
def Tables.columnsOf (t : Tables) (id : String) : Option Columns := (t.find id).map (·.columns)

/-- A terminal row stays as it is. -/
theorem terminal_step {c : Columns} (hsound : Sound u config.orchestration.maxStageAttempts t)
    (hterminal : c.status.terminal = true) (h : t.columnsOf id = some c) (op : Op u) :
    (t.step config op).columnsOf id = some c := by
  have hsteps : Steps u config.orchestration.maxStageAttempts t (t.step config op) :=
    steps_step hsound op
  cases hsteps with
  | same hsame => rw [hsame, h]
  | created row submission hcreated =>
    unfold Tables.columnsOf at h ⊢
    rw [hcreated.find, if_neg, h]
    rintro rfl
    simp [hcreated.fresh] at h
  | moved before after event hmoved =>
    unfold Tables.columnsOf at h ⊢
    rw [hmoved.find hsound.ids, if_neg, h]
    rintro rfl
    obtain ⟨request, hfound⟩ := hmoved.found
    rw [hfound] at h
    cases h
    have hleaves := hmoved.moves.lawful.leaves
    simp [Columns.view, hterminal] at hleaves

/-! ### Submissions that stay -/

theorem submission_step {s : Submission}
    (hsound : Sound u config.orchestration.maxStageAttempts t) (h : s ∈ t.submissions) (op : Op u) :
    s ∈ (t.step config op).submissions := by
  have hsteps : Steps u config.orchestration.maxStageAttempts t (t.step config op) :=
    steps_step hsound op
  cases hsteps with
  | same hsame => rwa [hsame]
  | created row submission hcreated =>
    rw [hcreated.submissions]
    exact List.mem_append_left _ h
  | moved before after event hmoved => rwa [hmoved.submissions]

/-- A key that is used is answered with its job, or with a conflict. -/
theorem lookup_of_mem {s : Submission} {attempts : Nat} (hsound : Sound u attempts t)
    (hs : s ∈ t.submissions) (digest : String) :
    t.lookupSubmission u s.submittedBy s.idempotencyKey digest =
        .error (conflict "idempotency key was used for a different request") ∧
        s.requestSha256 ≠ digest ∨
      s.requestSha256 = digest ∧ ∃ row : JobRow u, row.jobId = s.jobId ∧
        t.columnsOf s.jobId = some row.toColumns ∧
        t.lookupSubmission u s.submittedBy s.idempotencyKey digest = .ok (some ⟨row, false⟩) := by
  have hfirst : t.submissions.find? (fun a => decide (a.submittedBy = s.submittedBy) &&
      decide (a.idempotencyKey = s.idempotencyKey)) = some s := by
    cases hfind : t.submissions.find? (fun a => decide (a.submittedBy = s.submittedBy) &&
        decide (a.idempotencyKey = s.idempotencyKey)) with
    | none =>
      have hnone := List.find?_eq_none.mp hfind s hs
      simp at hnone
    | some a =>
      have ha := List.find?_some hfind
      simp only [Bool.and_eq_true, decide_eq_true_eq] at ha
      by_contra hne
      have hsymm : Std.Symm fun a b : Submission => ¬SameKey a b :=
        ⟨fun a b hab hba => hab ⟨hba.1.symm, hba.2.symm⟩⟩
      exact hsound.keys.forall (List.mem_of_find?_eq_some hfind) hs
        (fun heq => hne (congrArg some heq)) ha
  obtain ⟨job, hjob, -, hdigest⟩ := hsound.submitted s hs
  have hlookup : t.submissionOf s.submittedBy s.idempotencyKey = some (s, job) := by
    unfold Tables.submissionOf
    rw [hfirst]
    simp [hjob]
  unfold Tables.lookupSubmission
  rw [hlookup]
  by_cases heq : s.requestSha256 = digest
  · right
    have hcheck : job.columns.check u = .ok () :=
      check_eq_ok_iff.mpr (hsound.checked job (find_some hjob).1)
    refine ⟨heq, ⟨job.columns, hcheck⟩, (find_some hjob).2, ?_, ?_⟩
    · simp [Tables.columnsOf, hjob]
    · have hconstruct : construct u { job.columns with requestSha256 := s.requestSha256 } =
          .ok ⟨job.columns, hcheck⟩ := by
        rw [construct_eq_ok_iff, hsound.request_eq hs hjob]
      simp only [raiseIf, heq, ne_eq, not_true_eq_false, decide_false, Bool.false_eq_true, if_false]
      rw [heq] at hconstruct
      rw [hconstruct]
      rfl
  · left
    simp [raiseIf, heq, bind, Except.bind]

/-- A save that changes the row is not repeated until the row is put back. -/
theorem save_once {before after after' result result' : JobRow u} {t₁ t₂ : Tables}
    (hsound : Sound u config.orchestration.maxStageAttempts t)
    (hfirst : t.save before after = .ok (result, t₁)) (more : List (Op u))
    (hsecond : (t₁.run config more).save before after' = .ok (result', t₂)) :
    after = before ∨ ∃ earlier op later, more = earlier ++ op :: later ∧
      (t₁.run config earlier).columnsOf before.jobId ≠ some before.toColumns ∧
      ((t₁.run config earlier).step config op).columnsOf before.jobId = some before.toColumns := by
  obtain ⟨event, hmoved⟩ : ∃ event, Moved u config.orchestration.maxStageAttempts t t₁
    before.toColumns after.toColumns event := save_spec hfirst
  obtain ⟨event', hmoved'⟩ : ∃ event, Moved u config.orchestration.maxStageAttempts
    (t₁.run config more) t₂ before.toColumns after'.toColumns event := save_spec hsecond
  by_cases hsame : after = before
  · exact .inl hsame
  · right
    have hstart : t₁.columnsOf before.jobId ≠ some before.toColumns := by
      unfold Tables.columnsOf
      rw [hmoved.find hsound.ids, if_pos rfl]
      intro heq
      exact hsame (JobRow.ext_columns (Option.some.inj heq))
    have hend : (t₁.run config more).columnsOf before.jobId = some before.toColumns := by
      obtain ⟨request, hfound⟩ := hmoved'.found
      simp [Tables.columnsOf, hfound]
    exact exists_turn (P := fun t => t.columnsOf before.jobId = some before.toColumns) more hstart hend

/-- A submission that is accepted is on record. -/
theorem exists_submission {requestBytes : List UInt8} {requestHash key : String}
    {principal : Principal} {nowNs : Nat} {bundleExists : Bool} {suffix : Nat → String}
    {result : SubmissionResult u} (hsound : Sound u config.orchestration.maxStageAttempts t)
    (h : t.submit u config.limits requestBytes requestHash principal key nowNs bundleExists suffix =
      .ok (result, t')) :
    ∃ s ∈ t'.submissions, s.submittedBy = principal.address.toLower ∧ s.idempotencyKey = key ∧
      s.requestSha256 = requestHash ∧ s.jobId = result.row.jobId := by
  rcases submit_spec hsound h with ⟨hlookup, rfl⟩ | hcreated
  · unfold Tables.lookupSubmission Tables.submissionOf at hlookup
    split at hlookup
    next => cases hlookup
    next submission job hsubmission =>
      split at hsubmission
      next => cases hsubmission
      next submission' hfind =>
        obtain ⟨job', hjob', hpair⟩ := Option.map_eq_some_iff.mp hsubmission
        cases hpair
        simp only [Except.bind_eq_ok, raiseIf_eq_ok, exists_const, construct_eq_ok_iff] at hlookup
        obtain ⟨hdigest, row, hrow, hresult⟩ := hlookup
        cases hresult
        have hkey := List.find?_some hfind
        simp only [Bool.and_eq_true, decide_eq_true_eq] at hkey
        refine ⟨submission, List.mem_of_find?_eq_some hfind, hkey.1, hkey.2, by simpa using hdigest, ?_⟩
        rw [hrow, ← (find_some hjob').2]
  · have hmem : (⟨principal.address.toLower, key, requestHash, result.row.jobId, nowNs⟩ : Submission) ∈
        t'.submissions := by
      rw [hcreated.submissions]
      exact List.mem_append_right _ (List.mem_singleton_self _)
    exact ⟨_, hmem, rfl, rfl, rfl, rfl⟩

/-- A key that was used is answered from the record. -/
theorem submit_again {requestBytes requestBytes' : List UInt8} {requestHash requestHash' key : String}
    {principal : Principal} {nowNs nowNs' : Nat} {bundleExists bundleExists' : Bool}
    {suffix suffix' : Nat → String} {result : SubmissionResult u}
    (hsound : Sound u config.orchestration.maxStageAttempts t)
    (h : t.submit u config.limits requestBytes requestHash principal key nowNs bundleExists suffix =
      .ok (result, t')) (more : List (Op u)) :
    (requestHash' = requestHash ∧ ∃ row : JobRow u, row.jobId = result.row.jobId ∧
        (t'.run config more).submit u config.limits requestBytes' requestHash' principal key nowNs'
          bundleExists' suffix' = .ok (⟨row, false⟩, t'.run config more)) ∨
      (requestHash' ≠ requestHash ∧
        (t'.run config more).submit u config.limits requestBytes' requestHash' principal key nowNs'
          bundleExists' suffix' =
          .error (conflict "idempotency key was used for a different request")) := by
  have hvalid : validateKey key = .ok () := by
    unfold Tables.submit at h
    rw [Except.bind_eq_ok] at h
    exact h.choose_spec.1
  have hsound' : Sound u config.orchestration.maxStageAttempts t' := by
    rcases submit_spec hsound h with ⟨-, rfl⟩ | hcreated
    · exact hsound
    · exact hsound.created hcreated
  obtain ⟨s, hs, hby, hkey, hdigest, hid⟩ := exists_submission hsound h
  obtain ⟨hrun, hs⟩ := run_invariant (P := fun t => s ∈ t.submissions)
    (fun t op hsound h => submission_step hsound h op) hsound' hs more
  have hanswer := lookup_of_mem hrun hs requestHash'
  rw [hby, hkey, hdigest, hid] at hanswer
  unfold Tables.submit
  rcases hanswer with ⟨hlookup, hne⟩ | ⟨heq, row, hrow, -, hlookup⟩
  · right
    exact ⟨hne.symm, by simp [hvalid, hlookup, bind, Except.bind]⟩
  · left
    exact ⟨heq.symm, row, hrow, by simp [hvalid, hlookup, bind, Except.bind, pure, Except.pure]⟩

end Runs

/-! ## The store as a whole -/

/-- ASCII. -/
def ascii : Unicode where
  isprintable c := 32 ≤ c.toNat && c.toNat < 127
  isspace c := c.toNat = 32 || (9 ≤ c.toNat && c.toNat ≤ 13)

def oneOfEach : JobsConfig := ⟨⟨1, 1, 1⟩, ⟨1, 1, 1, Nat.one_pos, Nat.one_pos, Nat.one_pos⟩⟩

/-- Sixty-four zeros. -/
def zeroDigest : String := String.ofList (List.replicate 64 '0')

def zeroAddress : String := String.ofList ('0' :: 'x' :: List.replicate 40 '0')

def zeroSuffix (_ : Nat) : String := String.ofList (List.replicate 16 '0')

/-- A job is submitted and claimed. -/
def claimedJob : List (Op ascii) :=
  [.submit [] zeroDigest ⟨zeroAddress, false⟩ "k" 0 true zeroSuffix, .claimNext 0]

/-- The row that the claim gives. -/
def claimedColumns : Columns where
  jobId := "19700101T000000Z-0000000000000000"
  createdAtNs := 0
  submittedBy := zeroAddress
  requestSha256 := zeroDigest
  status := .running
  stage := some .resolve
  stageAttempts := 1
  nextAttemptAtNs := some 1000000000
  startedAtNs := some 0
  updatedAtNs := 0
  finishedAtNs := none
  pendingOutcome := none
  reasonCode := none
  reasonDetail := none
  blockedReasonCode := none
  blockedAtNs := none
  archiveReceiptKey := none

theorem claimedColumns_check : claimedColumns.check ascii = .ok () := by decide +kernel

def claimedRow : JobRow ascii := ⟨claimedColumns, claimedColumns_check⟩

end PredictionIndexer.Jobs
