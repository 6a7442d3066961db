import AmoAnalytics.Lib.Transaction
import AmoAnalytics.Lib.Workers
import AmoAnalytics.CrmControl.Store

/-!
# The jobs of the local analysis

The job table of `crm-control-analysis.service.ts` with its attempts and retry grants, and the
processes that work on it. A process runs `processQueue` or `retryTransientError` statement by
statement; between two statements any other process may act, and a process may stop at any point. A
transaction takes effect at once, when it commits.
-/

namespace AmoAnalytics.CrmControl

/-! ## Tables -/

inductive JobStatus
  | queued
  | running
  | ready
  | unknown
  | error
  deriving DecidableEq

/-- `CrmControlAnalysisJob`. -/
structure AnalysisJob where
  id : String
  resultId : String
  snapshotHash : String
  inputHash : String
  analyzerVersion : String
  promptVersion : String
  model : String
  modelSha256 : String
  request : Json
  status : JobStatus := .queued
  activeKey : Option String := none
  leaseToken : Option String := none
  leaseUntil : Option ℤ := none
  startedAt : Option ℤ := none
  finishedAt : Option ℤ := none
  nextAttemptAt : Option ℤ := none
  attemptCount : ℕ := 0
  attemptLimit : ℕ := 3
  errorCode : Option String := none
  assessmentStatus : Option ResultStatus := none
  assessmentMessage : Option String := none
  policyVersion : Option String := none
  createdAt : ℤ

inductive ValidationStatus
  | validated
  | unknown
  | invalid
  deriving DecidableEq

/-- The validation of a response; the code here reads its status only. -/
structure Validation where
  status : ValidationStatus
  body : Json

structure Assessment where
  status : ResultStatus
  message : String
  policyVersion : String

/-- What the analyzer answered. -/
inductive Outcome
  | ready (inputHash model modelSha256 promptVersion : String) (response : Json)
  | error (code : String) (retryable : Bool)

/-- `CrmControlAnalysisAttempt`. -/
structure Attempt where
  id : String
  jobId : String
  attemptNo : ℕ
  leaseToken : Option String
  status : JobStatus
  errorCode : Option String
  retryable : Bool
  rawResponse : Option Outcome := none
  validation : Option Validation := none
  startedAt : Option ℤ
  finishedAt : ℤ

/-- `CrmControlAnalysisRetryGrant`. -/
structure RetryGrant where
  id : String
  jobId : String
  requestKey : String
  attemptLimit : ℕ

structure AnalysisDb where
  jobs : List AnalysisJob := []
  attempts : List Attempt := []
  grants : List RetryGrant := []
  drawn : ℕ := 0

/-- The local model that a process is configured with. -/
structure AnalysisOptions where
  model : String
  modelSha256 : String
  deriving DecidableEq

/-- The validation of responses and the policy that reads the findings. -/
structure Analyzer where
  validate : Json → Json → Validation
  assess : Json → Validation → String → Assessment

def analyzerVersion : String := "4"
def promptVersion : String := "5"
def attemptsPerRequest : ℕ := 3
def leaseMs : ℤ := 5 * 60_000
def analysisKey : String := "local-semantic"
def retireBatchSize : ℕ := 100
def policyVersion : String := "2"

def transientCodes : List String :=
  ["LOCAL_AI_UNAVAILABLE", "LOCAL_AI_TIMEOUT", "LOCAL_AI_STORAGE_UNAVAILABLE"]

/-! ## Statements -/

namespace AnalysisDb

variable (db : AnalysisDb)

def updateJobs (p : AnalysisJob → Bool) (f : AnalysisJob → AnalysisJob) : AnalysisDb :=
  { db with jobs := Table.updateWhere p f db.jobs }

def insertAttempt (row : Attempt) : Except ServiceError AnalysisDb :=
  if db.attempts.any fun a => a.jobId = row.jobId ∧ a.attemptNo = row.attemptNo then
    .error (.uniqueViolation "CrmControlAnalysisAttempt.jobId_attemptNo")
  else .ok { db with attempts := db.attempts ++ [row], drawn := db.drawn + 1 }

def insertGrant (row : RetryGrant) : Except ServiceError AnalysisDb :=
  if db.grants.any fun g => g.jobId = row.jobId ∧ g.requestKey = row.requestKey then
    .error (.uniqueViolation "CrmControlAnalysisRetryGrant.jobId_requestKey")
  else .ok { db with grants := db.grants ++ [row], drawn := db.drawn + 1 }

def findJob (id : String) : Option AnalysisJob := db.jobs.find? fun j => decide (j.id = id)

def findGrant (jobId requestKey : String) : Option RetryGrant :=
  db.grants.find? fun g => decide (g.jobId = jobId ∧ g.requestKey = requestKey)

/-- The rows that meet the condition, by creation. -/
def jobsInOrder (p : AnalysisJob → Bool) : List AnalysisJob :=
  (db.jobs.filter p).mergeSort fun a b =>
    a.createdAt < b.createdAt || (a.createdAt = b.createdAt && !(b.id < a.id))

end AnalysisDb

/-! ## Enqueue -/

/-- A request that `enqueue` accepted, with its digests. -/
structure AnalysisRequest where
  resultId : String
  snapshotHash : String
  inputHash : String
  request : Json
  options : AnalysisOptions

def newJob (id : String) (r : AnalysisRequest) (createdAt : ℤ) : AnalysisJob where
  id := id
  resultId := r.resultId
  snapshotHash := r.snapshotHash
  inputHash := r.inputHash
  analyzerVersion := analyzerVersion
  promptVersion := promptVersion
  model := r.options.model
  modelSha256 := r.options.modelSha256
  request := r.request
  createdAt := createdAt

/-- The upsert of `enqueue`; its update half is empty. -/
def AnalysisDb.enqueue (env : Env) (r : AnalysisRequest) (createdAt : ℤ) (db : AnalysisDb) : AnalysisDb :=
  if db.jobs.any fun j => j.resultId = r.resultId ∧ j.inputHash = r.inputHash ∧
      j.analyzerVersion = analyzerVersion then db
  else { db with jobs := db.jobs ++ [newJob (env.uuid db.drawn) r createdAt], drawn := db.drawn + 1 }

/-! ## Manual retry -/

def validRequestKey (requestKey : String) : Bool :=
  trim requestKey ≠ "" && utf16Length requestKey ≤ 256

/-- The job may be retried by hand. -/
def AnalysisJob.retryable (job : AnalysisJob) : Bool :=
  job.status = .error && job.errorCode.any fun code =>
    code ≠ "" && (transientCodes.contains code || code = "LEASE_EXPIRED")

/-- `where` of the update: the job as it was read. -/
def sameError (job : AnalysisJob) (j : AnalysisJob) : Bool :=
  j.id = job.id ∧ j.status = .error ∧ j.errorCode = job.errorCode ∧
    j.attemptCount = job.attemptCount ∧ j.attemptLimit = job.attemptLimit ∧ j.finishedAt = job.finishedAt

def AnalysisJob.requeue (attemptLimit : ℕ) (j : AnalysisJob) : AnalysisJob :=
  { j with
    status := .queued, attemptLimit := attemptLimit, activeKey := none, leaseToken := none
    leaseUntil := none, nextAttemptAt := none, finishedAt := none, errorCode := none
    assessmentStatus := some .unknown
    assessmentMessage := some "Запрошена повторная попытка локального анализа."
    policyVersion := some CrmControl.policyVersion }

/-- The writes of `retryTransientError`. -/
def extendBudget (env : Env) (job : AnalysisJob) (requestKey : String) (db : AnalysisDb) :
    Except ServiceError AnalysisDb :=
  let attemptLimit := job.attemptCount + attemptsPerRequest
  if db.jobs.any (sameError job) then
    (db.updateJobs (sameError job) (·.requeue attemptLimit)).insertGrant
      ⟨env.uuid db.drawn, job.id, requestKey, attemptLimit⟩
  else .ok db

/-! ## Expired leases -/

/-- `where` of the search for an expired lease. -/
def expiredLease (now : ℤ) (j : AnalysisJob) : Bool :=
  j.status = .running && j.activeKey = some analysisKey && j.leaseUntil.any (· ≤ now)

/-- `where` of the update: the expired attempt still holds the job. -/
def stillExpired (now : ℤ) (expired j : AnalysisJob) : Bool :=
  j.id = expired.id && j.status = .running && j.leaseToken = expired.leaseToken &&
    j.leaseUntil.any (· ≤ now)

def AnalysisJob.expire (now : ℤ) (retryable : Bool) (j : AnalysisJob) : AnalysisJob :=
  { j with
    status := if retryable then .queued else .error
    activeKey := none, leaseToken := none, leaseUntil := none
    nextAttemptAt := if retryable then some now else none
    finishedAt := if retryable then none else some now
    errorCode := some "LEASE_EXPIRED", assessmentStatus := some .unknown
    assessmentMessage := some "Попытка локального анализа прервалась до завершения."
    policyVersion := some CrmControl.policyVersion }

/-- The transaction of `recoverExpired`. -/
def recoverExpired (env : Env) (now : ℤ) (expired : AnalysisJob) (db : AnalysisDb) :
    Except ServiceError AnalysisDb :=
  let retryable := decide (expired.attemptCount < expired.attemptLimit)
  if db.jobs.any (stillExpired now expired) then
    (db.updateJobs (stillExpired now expired) (·.expire now retryable)).insertAttempt
      { id := env.uuid db.drawn, jobId := expired.id, attemptNo := expired.attemptCount
        leaseToken := expired.leaseToken, status := .error, errorCode := some "LEASE_EXPIRED"
        retryable := retryable, startedAt := expired.startedAt, finishedAt := now }
  else .ok db

/-! ## Outdated jobs -/

def outdated (options : AnalysisOptions) (j : AnalysisJob) : Bool :=
  j.status = .queued && (j.analyzerVersion ≠ analyzerVersion || j.promptVersion ≠ promptVersion ||
    j.model ≠ options.model || j.modelSha256 ≠ options.modelSha256)

def AnalysisJob.retire (now : ℤ) (j : AnalysisJob) : AnalysisJob :=
  { j with
    status := .error, errorCode := some "LOCAL_AI_VERSION_CHANGED", finishedAt := some now
    nextAttemptAt := none, activeKey := none, leaseToken := none, leaseUntil := none
    assessmentStatus := some .unknown
    assessmentMessage := some "Настройки анализатора изменились; требуется новая допроверка."
    policyVersion := some CrmControl.policyVersion }

/-- The update of `retireOutdatedQueued`. -/
def retireOutdatedQueued (now : ℤ) (options : AnalysisOptions) (ids : List String) (db : AnalysisDb) :
    AnalysisDb :=
  db.updateJobs (fun j => ids.contains j.id && outdated options j) (·.retire now)

/-! ## Claim -/

def due (now : ℤ) (j : AnalysisJob) : Bool := j.nextAttemptAt.all (· ≤ now)

/-- `where` of the search for a job to claim. -/
def claimable (now : ℤ) (options : AnalysisOptions) (j : AnalysisJob) : Bool :=
  j.status = .queued && j.analyzerVersion = analyzerVersion && j.promptVersion = promptVersion &&
    j.model = options.model && j.modelSha256 = options.modelSha256 && j.attemptCount < j.attemptLimit &&
    due now j

/-- `where` of the update: the job as it was read. -/
def stillClaimable (now : ℤ) (candidate j : AnalysisJob) : Bool :=
  j.id = candidate.id && j.status = .queued && j.attemptCount = candidate.attemptCount &&
    j.attemptLimit = candidate.attemptLimit && due now j

def AnalysisJob.claim (now : ℤ) (leaseToken : String) (j : AnalysisJob) : AnalysisJob :=
  { j with
    status := .running, activeKey := some analysisKey, leaseToken := some leaseToken
    leaseUntil := some (now + leaseMs), startedAt := some now, finishedAt := none
    nextAttemptAt := none, attemptCount := j.attemptCount + 1 }

/-- The transaction of `claim`. The unique `activeKey` refuses a second running job. -/
def claim (env : Env) (now : ℤ) (candidate : AnalysisJob) (db : AnalysisDb) :
    Except ServiceError (AnalysisDb × Option AnalysisJob) :=
  if db.jobs.any (stillClaimable now candidate) then
    let db := { db.updateJobs (stillClaimable now candidate) (·.claim now (env.uuid db.drawn)) with
      drawn := db.drawn + 1 }
    if 1 < db.jobs.countP (·.activeKey = some analysisKey) then
      .error (.uniqueViolation "CrmControlAnalysisJob.activeKey")
    else .ok (db, db.findJob candidate.id)
  else .ok (db, none)

/-! ## Finish -/

/-- What `finish` makes of an outcome. -/
structure Verdict where
  errorCode : Option String
  retryable : Bool
  status : JobStatus
  assessment : Assessment
  validation : Option Validation

def identityValid (job : AnalysisJob) : Outcome → Bool
  | .ready inputHash model modelSha256 promptVersion _ =>
    inputHash = job.inputHash && modelSha256 = job.modelSha256 && model = job.model &&
      promptVersion = job.promptVersion
  | .error _ _ => true

def Outcome.validate (analyzer : Analyzer) (job : AnalysisJob) : Outcome → Option Validation
  | .ready _ _ _ _ response => some (analyzer.validate job.request response)
  | .error _ _ => none

def outcomeError (job : AnalysisJob) (outcome : Outcome) (validation : Option Validation) : Option String :=
  if !identityValid job outcome then some "LOCAL_AI_IDENTITY_MISMATCH"
  else if validation.any (·.status = .invalid) then some "LOCAL_AI_INVALID_RESPONSE"
  else match outcome with
  | .error code _ => some code
  | .ready _ _ _ _ _ => none

def Outcome.retryable (job : AnalysisJob) : Outcome → Bool
  | .error code retryable => retryable && transientCodes.contains code && job.attemptCount < job.attemptLimit
  | .ready _ _ _ _ _ => false

/-- The assessment of a valid response; `rule` is the rule code of the result of the job. -/
def outcomeAssessment (analyzer : Analyzer) (job : AnalysisJob) (validation : Option Validation)
    (errorCode rule : Option String) : Assessment :=
  match validation, errorCode, rule with
  | some validation, none, some rule => analyzer.assess job.request validation rule
  | _, _, _ => ⟨.unknown, "Локальный анализ пока не дал проверенного результата.", policyVersion⟩

/-- An empty code is no error. -/
def outcomeStatus (errorCode : Option String) (assessment : Assessment) : JobStatus :=
  if errorCode.any (· ≠ "") then .error
  else if assessment.status ≠ .unknown then .ready else .unknown

def verdict (analyzer : Analyzer) (job : AnalysisJob) (outcome : Outcome) (rule : Option String) : Verdict :=
  let validation := outcome.validate analyzer job
  let errorCode := outcomeError job outcome validation
  let assessment := outcomeAssessment analyzer job validation errorCode rule
  { errorCode, retryable := outcome.retryable job, status := outcomeStatus errorCode assessment
    assessment, validation }

/-- `where` of the update: the lease is current and has not expired. -/
def holdsJob (now : ℤ) (job j : AnalysisJob) : Bool :=
  j.id = job.id && j.status = .running && j.activeKey = some analysisKey && j.leaseToken = job.leaseToken &&
    j.attemptCount = job.attemptCount && j.leaseUntil.any (now < ·)

def retryDelay (job : AnalysisJob) : ℤ :=
  30_000 * max 1 ((job.attemptCount : ℤ) - (job.attemptLimit - attemptsPerRequest))

def AnalysisJob.finish (now delay : ℤ) (v : Verdict) (j : AnalysisJob) : AnalysisJob :=
  { j with
    status := if v.retryable then .queued else v.status
    activeKey := none, leaseToken := none, leaseUntil := none, errorCode := v.errorCode
    assessmentStatus := some v.assessment.status, assessmentMessage := some v.assessment.message
    policyVersion := some v.assessment.policyVersion
    nextAttemptAt := if v.retryable then some (now + delay) else none
    finishedAt := if v.retryable then none else some now }

/-- The transaction of `finish`. -/
def finish (env : Env) (now : ℤ) (job : AnalysisJob) (outcome : Outcome) (v : Verdict) (db : AnalysisDb) :
    Except ServiceError AnalysisDb :=
  if db.jobs.any (holdsJob now job) then
    (db.updateJobs (holdsJob now job) (·.finish now (retryDelay job) v)).insertAttempt
      { id := env.uuid db.drawn, jobId := job.id, attemptNo := job.attemptCount
        leaseToken := job.leaseToken, status := v.status, errorCode := v.errorCode
        retryable := v.retryable, rawResponse := some outcome, validation := v.validation
        startedAt := job.startedAt, finishedAt := now }
  else .ok db

/-! ## Processes -/

/-- Where a process stands between two statements. -/
inductive AnalysisThread
  | idle
  | started (now : ℤ) (options : AnalysisOptions)
  | recovering (now : ℤ) (options : AnalysisOptions) (expired : AnalysisJob)
  | recovered (now : ℤ) (options : AnalysisOptions)
  | retiring (now : ℤ) (options : AnalysisOptions) (ids : List String)
  | retired (now : ℤ) (options : AnalysisOptions)
  | claiming (now : ℤ) (options : AnalysisOptions) (candidate : AnalysisJob)
  | analysing (options : AnalysisOptions) (job : AnalysisJob)
  | granting (jobId requestKey : String)
  | granted (jobId requestKey : String)
  | extending (job : AnalysisJob) (requestKey : String)

/-- The next statement of a process, where nothing but the store decides what it does. A failed
transaction ends the call. -/
def AnalysisThread.advance (env : Env) (db : AnalysisDb) : AnalysisThread → AnalysisDb × AnalysisThread
  | .started now options =>
    match db.jobs.find? (expiredLease now) with
    | some expired => (db, .recovering now options expired)
    | none => (db, .recovered now options)
  | .recovering now options expired =>
    match recoverExpired env now expired db with
    | .ok db => (db, .recovered now options)
    | .error _ => (db, .idle)
  | .recovered now options =>
    match (db.jobsInOrder (outdated options)).take retireBatchSize with
    | [] => (db, .retired now options)
    | rows => (db, .retiring now options (rows.map (·.id)))
  | .retiring now options ids => (retireOutdatedQueued now options ids db, .retired now options)
  | .retired now options =>
    match (db.jobsInOrder (claimable now options)).head? with
    | some candidate => (db, .claiming now options candidate)
    | none => (db, .idle)
  | .claiming now options candidate =>
    match claim env now candidate db with
    | .ok (db, some job) => (db, .analysing options job)
    | .ok (db, none) => (db, .idle)
    | .error _ => (db, .idle)
  | .granting jobId requestKey =>
    if (db.findGrant jobId requestKey).isSome then (db, .idle) else (db, .granted jobId requestKey)
  | .granted jobId requestKey =>
    match db.findJob jobId with
    | some job => if job.retryable then (db, .extending job requestKey) else (db, .idle)
    | none => (db, .idle)
  | .extending job requestKey =>
    (Transaction.commit db (extendBudget env job requestKey db), .idle)
  | thread => (db, thread)

/-- A job that no longer fits the options of the process is not analysed. -/
def analysed (options : AnalysisOptions) (job : AnalysisJob) (outcome : Outcome) : Outcome :=
  if job.model ≠ options.model ∨ job.modelSha256 ≠ options.modelSha256 ∨
      job.promptVersion ≠ promptVersion ∨ job.analyzerVersion ≠ analyzerVersion then
    .error "LOCAL_AI_VERSION_CHANGED" false
  else outcome

inductive AnalysisAct
  | enqueue (r : AnalysisRequest) (createdAt : ℤ)
  | processQueue (now : ℤ) (options : AnalysisOptions)
  | retryTransientError (jobId requestKey : String)
  | advance
  | finish (now : ℤ) (outcome : Outcome) (rule : Option String)
  | crash

/-- The program of a process. -/
def analysisAct (env : Env) (analyzer : Analyzer) (db : AnalysisDb) :
    AnalysisThread → AnalysisAct → Option (AnalysisDb × AnalysisThread)
  | .idle, .enqueue r createdAt => some (db.enqueue env r createdAt, .idle)
  | .idle, .processQueue now options => some (db, .started now options)
  | .idle, .retryTransientError jobId requestKey =>
    if validRequestKey requestKey then some (db, .granting jobId requestKey) else some (db, .idle)
  | .analysing options job, .finish now outcome rule =>
    let outcome := analysed options job outcome
    some (Transaction.commit db (finish env now job outcome (verdict analyzer job outcome rule) db), .idle)
  | .analysing _ _, .advance => none
  | .idle, .advance => none
  | thread, .advance => some (thread.advance env db)
  | _, .crash => some (db, .idle)
  | _, _ => none

end AmoAnalytics.CrmControl
