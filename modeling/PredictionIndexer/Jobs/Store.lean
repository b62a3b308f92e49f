import PredictionIndexer.Jobs.Contract

/-!
# The replay job store

`universe/jobs/store.py` over the tables of `replay/jobs/contracts.py` and
`universe/schema/replay_jobs.sql`. Every operation is one transaction: what raises leaves the tables
as they were. Rows are read back through the constructor of `JobRow`.
-/

namespace PredictionIndexer.Jobs

open Fallible

/-! ## Tables -/

inductive EventType where
  | submitted | cancelled | claimedInitialize | claimedResume | stageAdvanced | retryScheduled
  | outcomePending | outcomeReplaced | archiveBlocked | archiveResumed | finished
deriving DecidableEq

/-- A row of `job_events`; its id is its place in the log. -/
structure Event where
  jobId : String
  eventType : EventType
  createdAtNs : Nat
  status : Status
  stage : Option Stage
  stageAttempts : Nat
  pendingOutcome : Option Status
  reasonCode : Option ReasonCode
deriving DecidableEq

/-- A row of `job_submissions`. -/
structure Submission where
  submittedBy : String
  idempotencyKey : String
  requestSha256 : String
  jobId : String
  createdAtNs : Nat
deriving DecidableEq

/-- A row of `jobs`, with its `request_json`. -/
structure StoredJob where
  columns : Columns
  requestJson : List UInt8
deriving DecidableEq

structure Tables where
  jobs : List StoredJob := []
  submissions : List Submission := []
  events : List Event := []
deriving DecidableEq

/-- An integer that SQLite can hold. -/
def Columns.fits (c : Columns) : Bool :=
  let small (n : Nat) : Bool := n < 2 ^ 63
  small c.createdAtNs && small c.stageAttempts && small c.updatedAtNs &&
    [c.nextAttemptAtNs, c.startedAtNs, c.finishedAtNs, c.blockedAtNs].all fun n => n.all small

/-- The `CHECK`s of the `jobs` table that the types of the columns leave open. -/
def Columns.sqlChecks (c : Columns) : Bool :=
  isJobId c.jobId && isAddress c.submittedBy && isHex 64 c.requestSha256 &&
    c.pendingOutcome.all Status.terminal &&
    c.reasonDetail.all (·.toList.length ≤ maxReasonDetail) &&
    c.blockedReasonCode.all ReasonCode.blocksArchive &&
    ((c.status = .archiving || c.status = .archiveBlocked) = c.pendingOutcome.isSome) &&
    ((c.status = .archiveBlocked) = c.blockedReasonCode.isSome) &&
    ((c.status = .archiveBlocked) = c.blockedAtNs.isSome) &&
    (c.status.terminal = c.finishedAtNs.isSome) &&
    (c.status.terminal = c.archiveReceiptKey.isSome) &&
    c.archiveReceiptKey.all (· = jobReceiptKey c.jobId) &&
    (c.nextAttemptAtNs.isNone || c.status.resumable) &&
    (c.status ≠ .queued || (c.stage.isNone && c.stageAttempts = 0 && c.startedAtNs.isNone &&
      c.reasonCode.isNone)) &&
    (c.status ≠ .running || (c.stage.any Stage.isWork && c.stageAttempts ≥ 1 &&
      c.startedAtNs.isSome)) &&
    (c.status = .queued || c.status = .running || c.stage = some .archive) &&
    ((c.status ≠ .succeeded && c.pendingOutcome ≠ some .succeeded) || c.reasonCode.isNone) &&
    (!c.status.terminal || c.status = .succeeded || c.reasonCode.isSome)

/-- A condition under which an operation raises. -/
def raiseIf (condition : Bool) (error : JobError) : Except JobError Unit :=
  if condition then .error error else .ok ()

@[simp] theorem raiseIf_eq_ok {condition : Bool} {error : JobError} {u : Unit} :
    raiseIf condition error = .ok u ↔ condition = false := by
  cases condition <;> simp [raiseIf]

/-- An integer as a parameter of a statement. -/
def bindNs (n : Nat) : Except JobError Unit := raiseIf (n ≥ 2 ^ 63) .overflow

/-- `ReplayJobError(409, …)` -/
def conflict (message : String) : JobError := .replay 409 message

namespace Tables

/-- `SELECT * FROM jobs WHERE job_id=?` -/
def find (t : Tables) (id : String) : Option StoredJob := t.jobs.find? (·.columns.jobId = id)

/-- The condition of the update: the row is where the writer saw it. -/
def matchesRow (before c : Columns) : Bool :=
  c.jobId = before.jobId && c.status = before.status && c.stage = before.stage &&
    c.stageAttempts = before.stageAttempts && c.updatedAtNs = before.updatedAtNs

def replaceRow (before after : Columns) (job : StoredJob) : StoredJob :=
  if matchesRow before job.columns then { job with columns := after } else job

/-- `_update` -/
def update (t : Tables) (before after : Columns) : Except JobError Tables := do
  raiseIf (!after.fits) .overflow
  let matched := t.jobs.countP fun job => matchesRow before job.columns
  raiseIf (0 < matched && !after.sqlChecks) .integrity
  raiseIf (matched ≠ 1) (conflict "job compare-and-set failed")
  return { t with jobs := t.jobs.map (replaceRow before after) }

/-- The event that reports a row. -/
def eventOf (c : Columns) (eventType : EventType) (nowNs : Nat) : Event where
  jobId := c.jobId
  eventType := eventType
  createdAtNs := nowNs
  status := c.status
  stage := c.stage
  stageAttempts := c.stageAttempts
  pendingOutcome := c.pendingOutcome
  reasonCode := c.reasonCode

/-- `_append_event`. The checks of its table are among those of the row. -/
def appendEvent (t : Tables) (c : Columns) (eventType : EventType) (nowNs : Nat) :
    Except JobError Tables := do
  bindNs nowNs
  return { t with events := t.events ++ [eventOf c eventType nowNs] }

end Tables

/-! ## Submitting -/

/-- `[A-Za-z0-9._~-]{1,128}` -/
def isIdempotencyKey (key : String) : Bool :=
  let cs := key.toList
  1 ≤ cs.length && cs.length ≤ 128 && cs.all fun c =>
    isLetter c || isDigit c || c = '.' || c = '_' || c = '~' || c = '-'

/-- `_validate_key` -/
def validateKey (key : String) : Except JobError Unit :=
  raiseIf (!isIdempotencyKey key) (.replay 400 "invalid Idempotency-Key")

/-- The limits of the configuration. -/
structure Limits where
  maxActiveJobsPerSubmitter : Nat
  maxActiveJobsTotal : Nat
  maxQueuedJobsTotal : Nat

/-- Who asks. -/
structure Principal where
  address : String
  admin : Bool

variable {u : Unicode}

/-- `SubmissionResult` -/
structure SubmissionResult (u : Unicode) where
  row : JobRow u
  created : Bool

inductive ClaimMode where
  | initializing | resuming
deriving DecidableEq

/-- `ClaimResult` -/
structure ClaimResult (u : Unicode) where
  row : JobRow u
  requestBytes : List UInt8
  mode : ClaimMode

namespace Tables

/-- The submission of a key, where its job is there to join. -/
def submissionOf (t : Tables) (submittedBy key : String) : Option (Submission × StoredJob) :=
  match t.submissions.find? fun s => s.submittedBy = submittedBy && s.idempotencyKey = key with
  | none => none
  | some submission => (t.find submission.jobId).map (submission, ·)

/-- `_lookup_submission`. The name of the digest is twice in the join, and the submission's is the
    first. -/
def lookupSubmission (u : Unicode) (t : Tables) (submittedBy key requestSha256 : String) :
    Except JobError (Option (SubmissionResult u)) :=
  match t.submissionOf submittedBy key with
  | none => return none
  | some (submission, job) => do
    raiseIf (submission.requestSha256 ≠ requestSha256)
      (conflict "idempotency key was used for a different request")
    let row ← construct u { job.columns with requestSha256 := submission.requestSha256 }
    return some ⟨row, false⟩

/-- `_check_quotas` -/
def checkQuotas (limits : Limits) (t : Tables) (submittedBy : String) : Except JobError Unit := do
  let active := t.jobs.filter fun job => !job.columns.status.terminal
  raiseIf (active.countP (fun job => job.columns.submittedBy = submittedBy) ≥
    limits.maxActiveJobsPerSubmitter) (.replay 429 "submitter active job quota exhausted")
  raiseIf (active.length ≥ limits.maxActiveJobsTotal)
    (.replay 503 "global active job quota exhausted")
  raiseIf (active.countP (fun job => job.columns.status = .queued) ≥ limits.maxQueuedJobsTotal)
    (.replay 503 "global queued job quota exhausted")

/-- `_insert_job`, with so many attempts left at an id that is not taken. -/
def insertJob (u : Unicode) (t : Tables) (requestBytes : List UInt8)
    (submittedBy requestSha256 : String) (nowNs : Nat) (suffix : Nat → String) (attempt : Nat) :
    Nat → Except JobError (JobRow u × Tables)
  | 0 => .error (.replay 503 "could not allocate a replay job id")
  | left + 1 => do
    let id ← jobId nowNs (suffix attempt)
    let candidate ← newJob u id submittedBy requestSha256 nowNs
    raiseIf (!candidate.fits) .overflow
    match t.find id with
    | some _ => insertJob u t requestBytes submittedBy requestSha256 nowNs suffix (attempt + 1) left
    | none =>
      raiseIf (!candidate.sqlChecks) .integrity
      return (candidate, { t with jobs := t.jobs ++ [⟨candidate.toColumns, requestBytes⟩] })

/-- The insert into `job_submissions`, with its keys. -/
def insertSubmission (t : Tables) (submission : Submission) : Except JobError Tables := do
  let taken := t.submissions.any fun s => (s.submittedBy = submission.submittedBy &&
    s.idempotencyKey = submission.idempotencyKey) || s.jobId = submission.jobId
  raiseIf taken .integrity
  return { t with submissions := t.submissions ++ [submission] }

/-- `submit`. The digest of the request and the suffixes drawn for its id come with the call. -/
def submit (u : Unicode) (limits : Limits) (t : Tables) (requestBytes : List UInt8)
    (requestHash : String) (principal : Principal) (key : String) (nowNs : Nat)
    (bundleExists : Bool) (suffix : Nat → String) :
    Except JobError (SubmissionResult u × Tables) := do
  validateKey key
  let submittedBy := principal.address.toLower
  match ← lookupSubmission u t submittedBy key requestHash with
  | some existing => return (existing, t)
  | none =>
    raiseIf (!bundleExists) (.replay 404 "bundle not found")
    t.checkQuotas limits submittedBy
    let (row, t) ← t.insertJob u requestBytes submittedBy requestHash nowNs suffix 0 128
    let t ← t.insertSubmission ⟨submittedBy, key, requestHash, row.jobId, nowNs⟩
    let t ← t.appendEvent row.toColumns .submitted nowNs
    return (⟨row, true⟩, t)

/-! ## Cancelling and claiming -/

/-- `cancel_job` -/
def cancelJob (u : Unicode) (t : Tables) (id : String) (principal : Principal) (nowNs : Nat) :
    Except JobError (JobRow u × Tables) := do
  let _ ← checkJobId id
  match t.find id with
  | none => .error (.replay 404 "job not found")
  | some stored =>
    let before ← construct u stored.columns
    raiseIf (!principal.admin && principal.address.toLower ≠ before.submittedBy)
      (.replay 403 "forbidden")
    raiseIf (before.status ≠ .queued) (conflict "only queued jobs can be cancelled")
    let after ← cancel before nowNs
    let t ← t.update before.toColumns after.toColumns
    let t ← t.appendEvent after.toColumns .cancelled nowNs
    return (after, t)

/-- The order of claims: by age, then by id. -/
def older (a b : Columns) : Bool :=
  a.createdAtNs < b.createdAtNs || (a.createdAtNs = b.createdAtNs && a.jobId < b.jobId)

/-- The older one of the best row so far and another. -/
def olderOf (best : Option StoredJob) (job : StoredJob) : Option StoredJob :=
  match best with
  | none => some job
  | some b => if older job.columns b.columns then some job else some b

/-- `ORDER BY created_at_ns,job_id LIMIT 1` -/
def oldest (jobs : List StoredJob) : Option StoredJob := jobs.foldl olderOf none

/-- The row to claim: the oldest resumable one whose time has come, else the oldest queued one. -/
def selectClaim (t : Tables) (nowNs : Nat) : Option StoredJob :=
  match oldest (t.jobs.filter fun job => job.columns.status.resumable &&
      job.columns.nextAttemptAtNs.all (· ≤ nowNs)) with
  | some job => some job
  | none => oldest (t.jobs.filter fun job => job.columns.status = .queued)

/-- The row needs a new directory: nothing of it has run. -/
def initializes (c : Columns) : Bool :=
  c.status = .queued || (c.status = .archiving && c.pendingOutcome = some .cancelled &&
    c.startedAtNs.isNone && c.stageAttempts = 0)

/-- `_claim_event` -/
def claimEvent (before after : Columns) : EventType :=
  if after.status = .archiveBlocked then .archiveBlocked
  else if before.status = .running && after.status = .archiving then .outcomePending
  else if initializes before then .claimedInitialize
  else .claimedResume

/-- `claim_next` -/
def claimNext (u : Unicode) (o : Orchestration) (t : Tables) (nowNs : Nat) :
    Except JobError (Option (ClaimResult u) × Tables) := do
  bindNs nowNs
  match t.selectClaim nowNs with
  | none => return (none, t)
  | some stored =>
    let before ← construct u stored.columns
    let after ← claim o before nowNs
    let t ← t.update before.toColumns after.toColumns
    let t ← t.appendEvent after.toColumns (claimEvent before.toColumns after.toColumns) nowNs
    let mode := if initializes before.toColumns then ClaimMode.initializing else .resuming
    return (some ⟨after, stored.requestJson, mode⟩, t)

end Tables

/-! ## Saving -/

def invalidTransition {α : Type} : Except JobError α := .error (conflict "invalid job transition")

/-- A contract error as an invalid transition. -/
def orInvalid {α : Type} (x : Except JobError α) : Except JobError α :=
  match x with
  | .error (.contract _) => invalidTransition
  | x => x

/-- The stage changes, and `after` is what `advance` gives. -/
def isAdvanced (before after : JobRow u) : Except JobError Bool :=
  if before.stage ≠ after.stage then do
    let expected ← orInvalid (advance before after.stage after.updatedAtNs)
    return after = expected
  else return false

/-- `before` and `after` are both running: the next stage, or another attempt later on. -/
def runningEvent (before after : JobRow u) : Except JobError (Option EventType) := do
  let advanced ← isAdvanced before after
  if advanced then return some .stageAdvanced
  else if before.stageAttempts = after.stageAttempts && after.toColumns = { before.toColumns with
      reasonCode := after.reasonCode
      reasonDetail := after.reasonDetail
      nextAttemptAtNs := after.nextAttemptAtNs
      updatedAtNs := after.updatedAtNs } then return some .retryScheduled
  else return none

/-- `before` is running and `after` is archiving. -/
def outcomeEvent (before after : JobRow u) : Except JobError (Option EventType) :=
  let pendingIf (expected : JobRow u) : Option EventType :=
    if after = expected then some .outcomePending else none
  if after.pendingOutcome = some .succeeded then
    return pendingIf (← succeed before after.updatedAtNs)
  else
    match after.reasonCode.filter (·.outcome.isSome) with
    | some code =>
      return pendingIf (← orInvalid (fail before code after.reasonDetail after.updatedAtNs))
    | none => return none

/-- The outcome changes, and `after` is what `lose_local_state` gives. -/
def isReplaced (before after : JobRow u) : Except JobError Bool :=
  if before.pendingOutcome ≠ after.pendingOutcome || before.reasonCode ≠ after.reasonCode then do
    let expected ← loseLocalState before after.reasonDetail after.updatedAtNs
    return after = expected
  else return false

/-- `before` and `after` are both archiving: the outcome is replaced, or another attempt later on. -/
def archivingEvent (before after : JobRow u) : Except JobError (Option EventType) := do
  let replaced ← isReplaced before after
  if replaced then return some .outcomeReplaced
  else if before.stageAttempts = after.stageAttempts && after.toColumns = { before.toColumns with
      reasonDetail := after.reasonDetail
      nextAttemptAtNs := after.nextAttemptAtNs
      updatedAtNs := after.updatedAtNs } then return some .retryScheduled
  else return none

/-- What is saved, by the statuses of the two rows. -/
def recognise (before after : JobRow u) : Except JobError (Option EventType) :=
  match before.status, after.status with
  | .running, .running => runningEvent before after
  | .running, .archiving => outcomeEvent before after
  | .archiving, .archiving => archivingEvent before after
  | .archiving, .archiveBlocked =>
    match after.blockedReasonCode with
    | some code => do
      let expected ← blockArchive before code after.updatedAtNs
      return if after = expected then some .archiveBlocked else none
    | none => return none
  | .archiveBlocked, .archiving => do
    let expected ← resumeBlocked before after.updatedAtNs
    return if after = expected then some .archiveResumed else none
  | .archiving, status =>
    if status.terminal then do
      let expected ← finish before after.finishedAtNs after.updatedAtNs
      return if after = expected then some .finished else none
    else return none
  | _, _ => return none

/-- The columns that no transition changes are the same. -/
def sameIdentity (before after : Columns) : Bool :=
  before.jobId = after.jobId && before.createdAtNs = after.createdAtNs &&
    before.submittedBy = after.submittedBy && before.requestSha256 = after.requestSha256 &&
    before.startedAtNs = after.startedAtNs

/-- `_transition_event` -/
def transitionEvent (before after : JobRow u) : Except JobError EventType := do
  raiseIf (!sameIdentity before.toColumns after.toColumns) (conflict "invalid job transition")
  match ← recognise before after with
  | some event => return event
  | none => invalidTransition

/-- `save` -/
def Tables.save (t : Tables) (before after : JobRow u) : Except JobError (JobRow u × Tables) := do
  raiseIf (before.jobId ≠ after.jobId) (conflict "job compare-and-set failed")
  let event ← transitionEvent before after
  match t.find before.jobId with
  | none => .error (conflict "job compare-and-set failed")
  | some stored =>
    let row ← construct u stored.columns
    raiseIf (row ≠ before) (conflict "job compare-and-set failed")
    let t ← t.update before.toColumns after.toColumns
    let t ← t.appendEvent after.toColumns event after.updatedAtNs
    return (after, t)

end PredictionIndexer.Jobs
