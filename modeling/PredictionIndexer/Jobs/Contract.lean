import PredictionIndexer.Finalize.Date
import PredictionIndexer.ForStd.Result

/-!
# The replay job contract

`replay/jobs/contracts.py`: the row of a job and its transitions. The constructor of a row checks
every field, and `replace` constructs the row anew, so a `JobRow` carries the checks it passed.
What the runtime knows about characters is given from outside.
-/

namespace PredictionIndexer.Jobs

open Fallible

/-- What an operation raises. -/
inductive JobError where
  /-- `ContractError` -/
  | contract (message : String)
  /-- `ReplayJobError` -/
  | replay (status : Nat) (message : String)
  | typeError
  /-- `sqlite3.IntegrityError` -/
  | integrity
  /-- An integer that SQLite cannot hold. -/
  | overflow
deriving DecidableEq

/-- `_require` -/
def require (ok : Bool) (message : String) : Except JobError Unit :=
  if ok then .ok () else .error (.contract message)

@[simp] theorem require_eq_ok {ok : Bool} {message : String} {u : Unit} :
    require ok message = .ok u ↔ ok = true := by
  cases ok <;> simp [require]

/-! ## Statuses, stages and reason codes -/

inductive Status where
  | queued | running | archiving | archiveBlocked
  | succeeded | failed | exhausted | notReady | staleBundleCache | cancelled
deriving DecidableEq

namespace Status

/-- `TERMINAL` -/
def terminal : Status → Bool
  | queued | running | archiving | archiveBlocked => false
  | succeeded | failed | exhausted | notReady | staleBundleCache | cancelled => true

/-- `RESUMABLE` -/
def resumable (s : Status) : Bool := s = running || s = archiving

def text : Status → String
  | queued => "queued"
  | running => "running"
  | archiving => "archiving"
  | archiveBlocked => "archive_blocked"
  | succeeded => "succeeded"
  | failed => "failed"
  | exhausted => "exhausted"
  | notReady => "not_ready"
  | staleBundleCache => "stale_bundle_cache"
  | cancelled => "cancelled"

end Status

/-- `STAGES` -/
inductive Stage where
  | resolve | bundle | prepare | run | read | archive
deriving DecidableEq

namespace Stage

def index : Stage → Nat
  | resolve => 0
  | bundle => 1
  | prepare => 2
  | run => 3
  | read => 4
  | archive => 5

/-- `WORK_STAGES` -/
def isWork (s : Stage) : Bool := s ≠ archive

def text : Stage → String
  | resolve => "resolve"
  | bundle => "bundle"
  | prepare => "prepare"
  | run => "run"
  | read => "read"
  | archive => "archive"

end Stage

/-- `REASON_CODES` -/
inductive ReasonCode where
  | cancelled | bundleNotRetired | canonicalNotArchived | staleBundleCache | supervisorExhausted
  | bundleHistoryInvalid | intervalOutOfRange | localStateLost | universeUnavailable
  | integrityFailure | resourceExhausted | toolFailure | supervisorFailed | resultInvalid
  | stageAttemptsExhausted | jobDeadlineExceeded | internalFailure
  | archiveUnavailable | archiveConflict
deriving DecidableEq

namespace ReasonCode

/-- `OUTCOME_OF_CODE` -/
def outcome : ReasonCode → Option Status
  | cancelled => some .cancelled
  | bundleNotRetired | canonicalNotArchived => some .notReady
  | staleBundleCache => some .staleBundleCache
  | supervisorExhausted => some .exhausted
  | bundleHistoryInvalid | intervalOutOfRange | localStateLost | universeUnavailable
  | integrityFailure | resourceExhausted | toolFailure | supervisorFailed | resultInvalid
  | stageAttemptsExhausted | jobDeadlineExceeded | internalFailure => some .failed
  | archiveUnavailable | archiveConflict => none

/-- `ARCHIVE_BLOCK_CODES` -/
def blocksArchive (c : ReasonCode) : Bool :=
  c = archiveUnavailable || c = archiveConflict || c = stageAttemptsExhausted

/-- `RETRYABLE_CODES` -/
def retryable (c : ReasonCode) : Bool :=
  c = universeUnavailable || c = archiveUnavailable || c = resourceExhausted

def text : ReasonCode → String
  | cancelled => "cancelled"
  | bundleNotRetired => "bundle_not_retired"
  | canonicalNotArchived => "canonical_not_archived"
  | staleBundleCache => "stale_bundle_cache"
  | supervisorExhausted => "supervisor_exhausted"
  | bundleHistoryInvalid => "bundle_history_invalid"
  | intervalOutOfRange => "interval_out_of_range"
  | localStateLost => "local_state_lost"
  | universeUnavailable => "universe_unavailable"
  | integrityFailure => "integrity_failure"
  | resourceExhausted => "resource_exhausted"
  | toolFailure => "tool_failure"
  | supervisorFailed => "supervisor_failed"
  | resultInvalid => "result_invalid"
  | stageAttemptsExhausted => "stage_attempts_exhausted"
  | jobDeadlineExceeded => "job_deadline_exceeded"
  | internalFailure => "internal_failure"
  | archiveUnavailable => "archive_unavailable"
  | archiveConflict => "archive_conflict"

end ReasonCode

/-- `repr` of a name or of `None`. -/
def quoted (name : Option String) : String :=
  match name with
  | some name => "'" ++ name ++ "'"
  | none => "None"

/-! ## Reason details -/

/-- What the runtime knows about characters. -/
structure Unicode where
  isprintable : Char → Bool
  isspace : Char → Bool

/-- `[A-Za-z]` -/
def isLetter (c : Char) : Bool := ('A' ≤ c && c ≤ 'Z') || ('a' ≤ c && c ≤ 'z')

/-- `[A-Za-z0-9+.-]` -/
def isScheme (c : Char) : Bool :=
  isLetter c || ('0' ≤ c && c ≤ '9') || c = '+' || c = '.' || c = '-'

/-- `[^/@\s]` -/
def isUser (u : Unicode) (c : Char) : Bool := c ≠ '/' && c ≠ '@' && !u.isspace c

/-- `_URL_USERINFO` at the start of a text: the scheme, the user and what lies behind the `@`. The
    two runs are followed by a character they do not take, so they are as long as they can be. -/
def userinfo (u : Unicode) (cs : List Char) : Option (List Char × List Char × List Char) :=
  match cs with
  | [] => none
  | c :: _ =>
    if isLetter c then
      match cs.dropWhile isScheme with
      | ':' :: '/' :: '/' :: rest =>
        match rest.dropWhile (isUser u) with
        | '@' :: behind => some (cs.takeWhile isScheme, rest.takeWhile (isUser u), behind)
        | _ => none
      | _ => none
    else none

theorem length_dropWhile_le {α : Type} (p : α → Bool) (l : List α) :
    (l.dropWhile p).length ≤ l.length :=
  (List.dropWhile_sublist p).length_le

theorem length_of_userinfo {u : Unicode} {cs scheme user behind : List Char}
    (h : userinfo u cs = some (scheme, user, behind)) : behind.length < cs.length := by
  unfold userinfo at h
  split at h
  next => cases h
  next c rest =>
    split at h
    next =>
      split at h
      next after hscheme =>
        split at h
        next behind' huser =>
          cases h
          have hfirst := length_dropWhile_le isScheme (c :: rest)
          have hsecond := length_dropWhile_le (isUser u) after
          rw [hscheme] at hfirst
          rw [huser] at hsecond
          simp only [List.length_cons] at hfirst hsecond ⊢
          omega
        next => cases h
      next => cases h
    next => cases h

/-- `_URL_USERINFO.sub` -/
def redact (u : Unicode) (cs : List Char) : List Char :=
  match _h : userinfo u cs with
  | some (scheme, _, behind) => scheme ++ "://***@".toList ++ redact u behind
  | none =>
    match cs with
    | [] => []
    | c :: rest => c :: redact u rest
termination_by cs.length
decreasing_by
  · exact length_of_userinfo _h
  · simp

/-- `str.strip` -/
def strip (u : Unicode) (cs : List Char) : List Char :=
  ((cs.dropWhile u.isspace).reverse.dropWhile u.isspace).reverse

def maxReasonDetail : Nat := 1024

/-- A text cut to its bound, the last character saying so. -/
def bounded (cs : List Char) : List Char :=
  if cs.length > maxReasonDetail then cs.take (maxReasonDetail - 1) ++ ['…'] else cs

/-- `reason_detail` -/
def reasonDetail (u : Unicode) (text : String) : Option String :=
  let redacted := redact u text.toList
  let printable := strip u (redacted.map fun c => if u.isprintable c then c else ' ')
  let detail := bounded printable
  if detail = [] then none else some (String.ofList detail)

/-- `reason_detail(detail) if detail else None` -/
def detailOf (u : Unicode) (detail : Option String) : Option String :=
  match detail with
  | some text => if text = "" then none else reasonDetail u text
  | none => none

/-! ## Identifiers -/

def isDigit (c : Char) : Bool := '0' ≤ c && c ≤ '9'

def isHexDigit (c : Char) : Bool := isDigit c || ('a' ≤ c && c ≤ 'f')

/-- So many lowercase hexadecimal digits. -/
def isHex (length : Nat) (text : String) : Bool :=
  text.toList.length = length && text.toList.all isHexDigit

/-- `_ADDRESS` -/
def isAddress (text : String) : Bool :=
  text.toList.length = 42 && text.toList.take 2 = ['0', 'x'] && (text.toList.drop 2).all isHexDigit

/-- `_JOB_ID` -/
def isJobId (text : String) : Bool :=
  let cs := text.toList
  cs.length = 33 && (cs.take 8).all isDigit && cs[8]? = some 'T' &&
    ((cs.drop 9).take 6).all isDigit && cs[15]? = some 'Z' && cs[16]? = some '-' &&
    (cs.drop 17).all isHexDigit

/-- `check_job_id` -/
def checkJobId (value : String) : Except JobError String := do
  require (isJobId value) "job id must be <yyyymmddTHHMMSSZ>-<16 hex>"
  return value

/-- `job_receipt_key` of an id that has been checked. -/
def jobReceiptKey (id : String) : String := "replay/jobs/" ++ id ++ "/job_receipt.json"

/-- `_ns` -/
def checkNs (value : Nat) (name : String) : Except JobError Unit :=
  require (value < 2 ^ 64) (name ++ " must be u64 ns")

/-- `_optional(_ns, …)` -/
def checkOptionalNs (value : Option Nat) (name : String) : Except JobError Unit :=
  match value with
  | some value => checkNs value name
  | none => .ok ()

/-- `job_id` -/
def jobId (nowNs : Nat) (suffixHex : String) : Except JobError String := do
  checkNs nowNs "job time"
  require (isHex 16 suffixHex) "job suffix must be 16 lowercase hex characters"
  let seconds := nowNs / 1000000000
  let (year, month, day) := Finalize.civilFromDays (seconds / 86400)
  let remainder := seconds % 86400
  let date := Finalize.zeroPadded 4 year ++ Finalize.zeroPadded 2 month ++ Finalize.zeroPadded 2 day
  let clock := Finalize.zeroPadded 2 (remainder / 3600) ++
    Finalize.zeroPadded 2 (remainder % 3600 / 60) ++ Finalize.zeroPadded 2 (remainder % 60)
  return String.ofList (date ++ 'T' :: clock ++ ['Z', '-'] ++ suffixHex.toList)

/-! ## Rows -/

/-- The columns of a job, but for the request. -/
structure Columns where
  jobId : String
  createdAtNs : Nat
  submittedBy : String
  requestSha256 : String
  status : Status
  stage : Option Stage
  stageAttempts : Nat
  nextAttemptAtNs : Option Nat
  startedAtNs : Option Nat
  updatedAtNs : Nat
  finishedAtNs : Option Nat
  pendingOutcome : Option Status
  reasonCode : Option ReasonCode
  reasonDetail : Option String
  blockedReasonCode : Option ReasonCode
  blockedAtNs : Option Nat
  archiveReceiptKey : Option String
deriving DecidableEq

namespace Columns

/-- What a row of a status has to be. -/
def checkStatus (c : Columns) : Except JobError Unit :=
  match c.status with
  | .queued =>
    require (c.stage.isNone && c.stageAttempts = 0 && c.startedAtNs.isNone && c.reasonCode.isNone)
      "queued rows have no stage, attempts, start, or reason"
  | .running => do
    require (c.stage.any Stage.isWork && c.stageAttempts ≥ 1 && c.startedAtNs.isSome)
      "running rows have a work stage, an attempt, and a start"
    require (c.reasonCode.all ReasonCode.retryable)
      "a running row may only record its last retryable reason"
  | status => do
    require (c.stage = some .archive) "archiving and terminal rows are in stage archive"
    let outcome := if status.terminal then some status else c.pendingOutcome
    if outcome = some .succeeded then
      require c.reasonCode.isNone "succeeded has no reason code"
    else
      require (c.reasonCode.bind ReasonCode.outcome = outcome)
        (outcome.elim "None" Status.text ++ " requires a matching reason code")
    if status.terminal then require (c.stageAttempts = 0) "terminal rows hold no attempt"

/-- `__post_init__`. What the types of the columns exclude is not checked again. -/
def check (u : Unicode) (c : Columns) : Except JobError Unit := do
  require (isJobId c.jobId) "job id must be <yyyymmddTHHMMSSZ>-<16 hex>"
  checkNs c.createdAtNs "created_at_ns"
  require (isAddress c.submittedBy) "submitted_by must be a lowercase 0x address"
  require (isHex 64 c.requestSha256) "request_sha256 must be 64 lowercase hex characters"
  checkOptionalNs c.nextAttemptAtNs "next_attempt_at_ns"
  checkOptionalNs c.startedAtNs "started_at_ns"
  checkOptionalNs c.finishedAtNs "finished_at_ns"
  checkOptionalNs c.blockedAtNs "blocked_at_ns"
  checkNs c.updatedAtNs "updated_at_ns"
  require (c.reasonDetail.all fun detail => Jobs.reasonDetail u detail = some detail)
    "reason_detail must be sanitized by reason_detail()"
  require ((c.status = .archiving || c.status = .archiveBlocked) = c.pendingOutcome.isSome)
    "pending_outcome is set exactly while archiving or archive_blocked"
  require (c.pendingOutcome.all Status.terminal) "pending_outcome must be a terminal status"
  let blocked : Bool := c.status = .archiveBlocked
  require (blocked = (c.blockedReasonCode.isSome && c.blockedAtNs.isSome) &&
      (blocked || (c.blockedReasonCode.isNone && c.blockedAtNs.isNone)))
    "blocked fields are set exactly while archive_blocked"
  require (c.blockedReasonCode.all ReasonCode.blocksArchive)
    "blocked_reason_code must be an archive block code"
  require (c.status.terminal = c.finishedAtNs.isSome &&
      c.status.terminal = c.archiveReceiptKey.isSome)
    "terminal rows, and only they, have finished_at_ns and archive_receipt_key"
  require (c.archiveReceiptKey.all fun key => key = jobReceiptKey c.jobId)
    "archive_receipt_key must be this job's receipt key"
  require (c.nextAttemptAtNs.isNone || c.status.resumable) "only resumable rows are scheduled"
  c.checkStatus

end Columns

/-- A row that has been constructed. -/
structure JobRow (u : Unicode) extends Columns where
  valid : toColumns.check u = .ok ()

variable {u : Unicode}

theorem JobRow.ext_columns {a b : JobRow u} (h : a.toColumns = b.toColumns) : a = b := by
  cases a
  cases b
  cases h
  rfl

theorem JobRow.columns_eq_iff {a b : JobRow u} : a.toColumns = b.toColumns ↔ a = b :=
  ⟨JobRow.ext_columns, fun h => h ▸ rfl⟩

instance : DecidableEq (JobRow u) := fun a b =>
  decidable_of_iff (a.toColumns = b.toColumns) JobRow.columns_eq_iff

/-- `JobRow(…)` -/
def construct (u : Unicode) (c : Columns) : Except JobError (JobRow u) :=
  match h : c.check u with
  | .ok () => .ok ⟨c, h⟩
  | .error e => .error e

theorem construct_eq_ok_iff {c : Columns} {row : JobRow u} :
    construct u c = .ok row ↔ row.toColumns = c := by
  unfold construct
  constructor
  · intro h
    split at h
    next hcheck =>
      cases h
      rfl
    next => cases h
  · rintro rfl
    split
    next hcheck => rfl
    next e hcheck =>
      rw [row.valid] at hcheck
      cases hcheck

/-- `new_job` -/
def newJob (u : Unicode) (id submittedBy requestSha256 : String) (nowNs : Nat) :
    Except JobError (JobRow u) :=
  construct u {
    jobId := id
    createdAtNs := nowNs
    submittedBy := submittedBy
    requestSha256 := requestSha256
    status := .queued
    stage := none
    stageAttempts := 0
    nextAttemptAtNs := none
    startedAtNs := none
    updatedAtNs := nowNs
    finishedAtNs := none
    pendingOutcome := none
    reasonCode := none
    reasonDetail := none
    blockedReasonCode := none
    blockedAtNs := none
    archiveReceiptKey := none }

/-! ## Transitions -/

/-- `Orchestration`, as `parse_runner_config` admits it. -/
structure Orchestration where
  maxStageAttempts : Nat
  maxJobSeconds : Nat
  retryBackoffSeconds : Nat
  attempts_pos : 0 < maxStageAttempts
  seconds_pos : 0 < maxJobSeconds
  backoff_pos : 0 < retryBackoffSeconds

def Orchestration.backoff (o : Orchestration) : Nat := o.retryBackoffSeconds * 1000000000

/-- `claimable` -/
def Columns.claimable (c : Columns) (nowNs : Nat) : Bool :=
  c.status.resumable && c.nextAttemptAtNs.all (· ≤ nowNs)

/-- `_enter_archiving` -/
def enterArchiving (row : JobRow u) (outcome : Status) (code : Option ReasonCode)
    (detail : Option String) (nowNs : Nat) : Except JobError (JobRow u) :=
  construct u { row.toColumns with
    status := .archiving
    stage := some .archive
    stageAttempts := if row.status = .queued then 0 else 1
    pendingOutcome := some outcome
    reasonCode := code
    reasonDetail := detailOf u detail
    nextAttemptAtNs := none
    updatedAtNs := nowNs }

def succeed (row : JobRow u) (nowNs : Nat) : Except JobError (JobRow u) := do
  require (row.status = .running && row.stage = some .read) "only a read-complete job succeeds"
  enterArchiving row .succeeded none none nowNs

def fail (row : JobRow u) (code : ReasonCode) (detail : Option String) (nowNs : Nat) :
    Except JobError (JobRow u) := do
  require (row.status = .running) "only running jobs end their work stages"
  match code.outcome with
  | some outcome =>
    require (code ≠ .cancelled) (quoted code.text ++ " is not a work outcome")
    enterArchiving row outcome code detail nowNs
  | none => .error (.contract (quoted code.text ++ " is not a work outcome"))

def cancel (row : JobRow u) (nowNs : Nat) : Except JobError (JobRow u) := do
  require (row.status = .queued) "only queued jobs can be cancelled"
  enterArchiving row .cancelled (some .cancelled) none nowNs

/-- `lose_local_state` -/
def loseLocalState (row : JobRow u) (detail : Option String) (nowNs : Nat) :
    Except JobError (JobRow u) := do
  require row.status.resumable "only resumable jobs can lose local state"
  if row.status = .running then fail row .localStateLost detail nowNs
  else construct u { row.toColumns with
    pendingOutcome := some .failed
    reasonCode := some .localStateLost
    reasonDetail := detailOf u detail
    updatedAtNs := nowNs }

/-- `block_archive` -/
def blockArchive (row : JobRow u) (code : ReasonCode) (nowNs : Nat) :
    Except JobError (JobRow u) := do
  require (row.status = .archiving) "only archiving jobs block"
  require code.blocksArchive (quoted code.text ++ " is not an archive block code")
  construct u { row.toColumns with
    status := .archiveBlocked
    blockedReasonCode := some code
    blockedAtNs := some nowNs
    nextAttemptAtNs := none
    updatedAtNs := nowNs }

/-- `resume_blocked` -/
def resumeBlocked (row : JobRow u) (nowNs : Nat) : Except JobError (JobRow u) := do
  require (row.status = .archiveBlocked) "only blocked jobs resume"
  construct u { row.toColumns with
    status := .archiving
    stageAttempts := 0
    blockedReasonCode := none
    blockedAtNs := none
    updatedAtNs := nowNs }

/-- `claim`. The attempt is counted before any work runs. -/
def claim (o : Orchestration) (row : JobRow u) (nowNs : Nat) : Except JobError (JobRow u) := do
  let again : Except JobError (JobRow u) := construct u { row.toColumns with
    stageAttempts := row.stageAttempts + 1
    nextAttemptAtNs := some (nowNs + o.backoff)
    updatedAtNs := nowNs }
  if row.status = .queued then
    construct u { row.toColumns with
      status := .running
      stage := some .resolve
      stageAttempts := 1
      startedAtNs := some nowNs
      nextAttemptAtNs := some (nowNs + o.backoff)
      updatedAtNs := nowNs }
  else do
    require (row.claimable nowNs) ("job " ++ row.jobId ++ " is not claimable now")
    if row.status = .running then
      match row.startedAtNs with
      | none => .error .typeError
      | some started =>
        if nowNs ≥ started + o.maxJobSeconds * 1000000000 then
          fail row .jobDeadlineExceeded none nowNs
        else if row.stageAttempts ≥ o.maxStageAttempts then
          fail row .stageAttemptsExhausted (some ("stage " ++ row.stage.elim "None" Stage.text ++
            " started " ++ toString row.stageAttempts ++ " times")) nowNs
        else again
    else if row.stageAttempts ≥ o.maxStageAttempts then
      blockArchive row .stageAttemptsExhausted nowNs
    else again

/-- The stage is a work stage and the one behind another. -/
def follows (stage current : Option Stage) : Bool :=
  match stage, current with
  | some stage, some current => stage.isWork && stage.index = current.index + 1
  | _, _ => false

def advance (row : JobRow u) (stage : Option Stage) (nowNs : Nat) : Except JobError (JobRow u) := do
  require (row.status = .running) "only running jobs advance"
  require (follows stage row.stage) ("stage " ++ quoted (stage.map Stage.text) ++
    " does not follow " ++ quoted (row.stage.map Stage.text))
  construct u { row.toColumns with
    stage := stage
    stageAttempts := 1
    reasonCode := none
    reasonDetail := none
    updatedAtNs := nowNs }

/-- `retry_later` -/
def retryLater (o : Orchestration) (row : JobRow u) (code : ReasonCode) (detail : Option String)
    (nowNs : Nat) : Except JobError (JobRow u) := do
  require row.status.resumable "only resumable jobs retry"
  require code.retryable (quoted code.text ++ " is not retryable")
  if row.status = .archiving then
    construct u { row.toColumns with
      nextAttemptAtNs := some (nowNs + o.backoff)
      updatedAtNs := nowNs }
  else construct u { row.toColumns with
    reasonCode := some code
    reasonDetail := detailOf u detail
    nextAttemptAtNs := some (nowNs + o.backoff)
    updatedAtNs := nowNs }

/-- `finish` -/
def finish (row : JobRow u) (finishedAtNs : Option Nat) (nowNs : Nat) :
    Except JobError (JobRow u) := do
  require (row.status = .archiving) "only archiving jobs finish"
  match finishedAtNs, row.pendingOutcome with
  | some finished, some outcome => do
    checkNs finished "finished_at_ns"
    checkNs nowNs "now_ns"
    require (row.createdAtNs ≤ finished && finished ≤ nowNs)
      "finished_at_ns must be between job creation and reconciliation time"
    construct u { row.toColumns with
      status := outcome
      pendingOutcome := none
      stageAttempts := 0
      nextAttemptAtNs := none
      finishedAtNs := some finished
      archiveReceiptKey := some (jobReceiptKey row.jobId)
      updatedAtNs := nowNs }
  | none, _ => .error (.contract "finished_at_ns must be u64 ns")
  -- a row without an outcome is not archiving
  | some _, none => .error .typeError

end PredictionIndexer.Jobs
