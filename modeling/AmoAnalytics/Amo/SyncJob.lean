import AmoAnalytics.Lib.Table
import AmoAnalytics.Lib.Workers
import AmoAnalytics.Amo.Reconcile

/-!
# Synchronisation jobs

The job table of `amo-sync.service.ts` and the programs that work on it and on the connection:
requests that enqueue or trigger a job, the ticks of the scheduler, the execution of a pull or
webhook job, the reconcile, and the patches of the configuration. A program runs statement by
statement; between two statements any other program may act, and a program may stop at any point.
-/

namespace AmoAnalytics.Amo

open CrmControl (timeClip)

/-! ## Tables -/

inductive SyncJobType
  | full
  | incremental
  | webhook
  deriving DecidableEq

inductive SyncJobStatus
  | queued
  | running
  | success
  | error
  deriving DecidableEq

/-- `status: { in: ['QUEUED', 'RUNNING'] }`. -/
def SyncJobStatus.active (status : SyncJobStatus) : Bool := status = .queued || status = .running

/-- `SyncJob`; of the JSON column `cursor` the text `step`. -/
structure SyncJob where
  id : String
  connectionId : String
  type : SyncJobType
  status : SyncJobStatus := .queued
  startedAt : Option ℤ := none
  heartbeatAt : Option ℤ := none
  finishedAt : Option ℤ := none
  step : Option String := none
  stats : List (String × ℚ) := []
  error : Option String := none
  createdAt : ℤ

/-- The jobs and the connections. `patches` records for each connection the configuration patches
written to it, in order; no program reads it. -/
structure SyncDb where
  jobs : List SyncJob := []
  connections : String → Option AmoConnection := fun _ => none
  patches : String → List Config := fun _ => []

namespace SyncDb

variable (db : SyncDb)

def findJob (id : String) : Option SyncJob := db.jobs.find? fun job => decide (job.id = id)

def updateJobs (p : SyncJob → Bool) (f : SyncJob → SyncJob) : SyncDb :=
  { db with jobs := Table.updateWhere p f db.jobs }

def updateJob (id : String) (f : SyncJob → SyncJob) : SyncDb :=
  db.updateJobs (fun job => decide (job.id = id)) f

def createJob (job : SyncJob) : SyncDb := { db with jobs := db.jobs ++ [job] }

def updateConnection (id : String) (f : AmoConnection → AmoConnection) : SyncDb :=
  { db with connections := fun c => if c = id then (db.connections c).map f else db.connections c }

/-- The write of `updateConnectionConfig`, recorded. -/
def writeConfig (id : String) (read patch : Config) (data : ConnectionData) : SyncDb :=
  { db.updateConnection id (·.writeConfig read patch data) with
    patches := fun c => if c = id then db.patches c ++ [patch] else db.patches c }

/-- The active jobs of a connection that meet the condition. -/
def activeJobs (connectionId : String) (p : SyncJobType → Bool) : List SyncJob :=
  db.jobs.filter fun job => job.connectionId = connectionId && p job.type && job.status.active

/-- The queued jobs of the given types, oldest first. -/
def queuedJobs (connectionId : String) (types : List SyncJobType) : List SyncJob :=
  (db.jobs.filter fun job => job.connectionId = connectionId && types.contains job.type &&
    job.status = .queued).insertionSort fun a b => a.createdAt ≤ b.createdAt

end SyncDb

/-! ## Stale jobs -/

/-- The settings in minutes, parsed; `none` is a setting that is absent or not finite. -/
structure StaleSettings where
  fullMinutes : Option ℚ := none
  incrementalMinutes : Option ℚ := none
  webhookMinutes : Option ℚ := none

def getStaleSyncJobMs (settings : StaleSettings) (type : SyncJobType) : ℚ :=
  let read (parsed : Option ℚ) (fallback : ℚ) : ℚ :=
    match parsed.filter fun minutes => 0 < minutes with
    | some minutes => minutes * 60_000
    | none => fallback
  match type with
  | .full => read settings.fullMinutes (6 * 60 * 60 * 1000)
  | .webhook => read settings.webhookMinutes 60_000
  | .incremental => read settings.incrementalMinutes (30 * 60_000)

/-- `staleSyncJobBranches`. -/
def staleSyncJob (settings : StaleSettings) (now : ℤ) (job : SyncJob) : Bool :=
  (timeClip (now - getStaleSyncJobMs settings job.type)).any fun cutoff =>
    match job.heartbeatAt, job.startedAt with
    | some heartbeatAt, _ => heartbeatAt < cutoff
    | none, some startedAt => startedAt < cutoff
    | none, none => job.createdAt < cutoff

/-- `where` of `expireStaleJobs`. -/
def expires (settings : StaleSettings) (connectionId : String) (now : ℤ) (job : SyncJob) : Bool :=
  job.connectionId = connectionId && job.status.active && staleSyncJob settings now job

def SyncJob.expire (now : ℤ) (job : SyncJob) : SyncJob :=
  { job with
    status := .error, finishedAt := some now
    error := some "Синхронизация была прервана и закрыта автоматически" }

/-! ## Requests and ticks -/

def resolveRequestedSyncType (type : SyncJobType) (connection : AmoConnection) : SyncJobType :=
  if type = .full then .full
  else if connection.lastFullSyncAt = none ∧ connection.lastIncrementalSyncAt = none then .full
  else type

/-- What a program does once the stale jobs are closed. -/
inductive Intent
  | enqueue (type : SyncJobType)
  | trigger (type : SyncJobType)
  | triggerWebhook
  | tick (types : List SyncJobType)

def isPull (type : SyncJobType) : Bool := type ≠ .webhook

/-- A new row. -/
def newJob (id connectionId : String) (type : SyncJobType) (now : ℤ) : SyncJob where
  id := id
  connectionId := connectionId
  type := type
  heartbeatAt := some now
  createdAt := now

/-- The job that the transaction of `enqueuePullSync`, `trigger` or `triggerWebhookQueue` creates, if
any; `pending` says that webhook events wait in the inbox. -/
def jobToCreate (db : SyncDb) (connection : AmoConnection) (intent : Intent) (id : String) (now : ℤ)
    (pending : Bool) : Option SyncJob :=
  match intent with
  | .enqueue type | .trigger type =>
    if type = .webhook then none
    else if db.activeJobs connection.id isPull ≠ [] then none
    else some (newJob id connection.id (resolveRequestedSyncType type connection) now)
  | .triggerWebhook =>
    if !pending then none
    else if db.activeJobs connection.id (· = .full) ≠ [] ∨ connection.lastFullSyncAt = none then none
    else if db.activeJobs connection.id (· = .webhook) ≠ [] then none
    else some (newJob id connection.id .webhook now)
  | .tick _ => none

/-! ## Running a job -/

/-- The first statement of `runPullJob` or `runWebhookJob`. -/
def SyncJob.start (now : ℤ) (job : SyncJob) : SyncJob :=
  { job with
    status := .running, startedAt := some now, heartbeatAt := some now
    step := if job.type = .webhook then some "webhook_queue" else job.step }

/-- `touchJob`. -/
def SyncJob.touch (now : ℤ) (step : String) (job : SyncJob) : SyncJob :=
  { job with heartbeatAt := some now, step := some step }

def SyncJob.succeed (now : ℤ) (stats : List (String × ℚ)) (job : SyncJob) : SyncJob :=
  { job with status := .success, heartbeatAt := some now, finishedAt := some now, stats }

def SyncJob.fail (now : ℤ) (message : String) (stats : List (String × ℚ)) (job : SyncJob) : SyncJob :=
  { job with
    status := .error, heartbeatAt := some now, finishedAt := some now, error := some message, stats }

/-- The last write of a successful job: `job` and `read` are the rows that it read at its start. -/
def saveFinished (job : SyncJob) (read : AmoConnection) (syncStartedAt finishedAt : ℤ) (grouped : Bool)
    (connection : AmoConnection) : AmoConnection :=
  if job.type = .webhook then
    { connection with
      status := .active, lastError := none, lastFullSyncAt := read.lastFullSyncAt
      lastWebhookAppliedAt := if grouped then some finishedAt else read.lastWebhookAppliedAt }
  else
    { connection with
      status := .active, lastError := none
      lastFullSyncAt := if job.type = .full then some finishedAt else read.lastFullSyncAt
      lastIncrementalSyncAt := some syncStartedAt
      lastPullSyncAt := some syncStartedAt }

/-- What a reconcile writes at its end: the patch and the other columns. -/
def reconcileWrite (newDate : String → Option ℤ) (connection : AmoConnection) (run : ReconcileRun) :
    Option (Config × ConnectionData) :=
  let previousCursor := connection.recentReconcileAt newDate
  let failed (message : String) : Option (Config × ConnectionData) :=
    if run.errorSaved then some (reconcileErrorPatch message run.failedAt, {}) else none
  if connection.lastFullSyncAt = none then none
  else if previousCursor.any fun cursor => run.startedAt < cursor then none
  else
    let syncFrom := run.recentReconcileFrom previousCursor
    match run.work with
    | .error message => failed message
    | .ok stats =>
      match run.reconcileThrough previousCursor syncFrom, syncFrom with
      | some through, some since => some (reconcilePatch since through stats, reconcileData through)
      | _, _ => failed "Invalid time value"

/-! ## Programs -/

/-- Where a program stands. A program carries the rows it has read: `read` is the connection or its
configuration as it was then. -/
inductive SyncProgram
  | idle
  /-- `updateConnectionConfig` between its read and its write. -/
  | patching (connectionId : String) (patch : Config) (data : ConnectionData) (read : Config)
  | reconciling (read : AmoConnection) (run : ReconcileRun)
  /-- Before the update of `expireStaleJobs`, after it where it closed a job, and after the whole. -/
  | recovering (read : AmoConnection) (intent : Intent)
  | recovered (read : AmoConnection) (intent : Intent)
  | ready (read : AmoConnection) (intent : Intent)
  /-- About to call `run(jobId)`. -/
  | holding (jobId : String)
  | loaded (job : SyncJob) (read : AmoConnection)
  | started (job : SyncJob) (read : AmoConnection)
  | running (job : SyncJob) (read : AmoConnection) (syncStartedAt : ℤ)
  /-- `ensureWebhookSubscription` between the read and the write of the configuration. -/
  | subscribing (job : SyncJob) (connection : AmoConnection) (syncStartedAt : ℤ) (patch read : Config)
  /-- The job is `SUCCESS`, the connection is still to be written. -/
  | finished (job : SyncJob) (read : AmoConnection) (syncStartedAt finishedAt : ℤ)
  | catching (job : SyncJob) (message : String)
  /-- The job is `ERROR`, the connection is still to be written. -/
  | caught (job : SyncJob) (message : String)

inductive SyncAction
  /-- The process stops. -/
  | crash
  | readConfig (connectionId : String) (patch : Config) (data : ConnectionData)
  | writeConfig
  | beginReconcile (connectionId : String) (run : ReconcileRun)
  | endReconcile
  | begin (connectionId : String) (intent : Intent)
  | expire (now : ℤ)
  | reactivate
  | create (jobId : String) (now : ℤ) (pending : Bool)
  /-- The advisory lock is taken. -/
  | busy
  | pick
  | load
  | start (now : ℤ)
  | markSyncing (now : ℤ)
  | touch (now : ℤ) (step : String)
  | subscribe (patch : Config)
  | fail (message : String)
  | finish (now : ℤ) (stats : List (String × ℚ))
  | save (grouped : Bool)
  | markError (now : ℤ) (stats : List (String × ℚ))
  | saveError

/-- The parts of the runtime: the reading of dates and the settings. -/
structure SyncEnv where
  newDate : String → Option ℤ
  settings : StaleSettings := {}

/-- What a program does after its transaction has created a job. -/
def afterCreate (intent : Intent) (job : SyncJob) : SyncProgram :=
  match intent with
  | .trigger _ | .triggerWebhook => .holding job.id
  | .enqueue _ | .tick _ => .idle

/-- One statement of a program. -/
def syncAct (env : SyncEnv) (db : SyncDb) : SyncProgram → SyncAction → Option (SyncDb × SyncProgram)
  | _, .crash => some (db, .idle)
  | .idle, .readConfig connectionId patch data =>
    (db.connections connectionId).map fun read => (db, .patching connectionId patch data read.config)
  | .patching connectionId patch data read, .writeConfig =>
    some (db.writeConfig connectionId read patch data, .idle)
  | .idle, .beginReconcile connectionId run =>
    (db.connections connectionId).map fun read => (db, .reconciling read run)
  | .reconciling read run, .endReconcile =>
    match reconcileWrite env.newDate read run with
    | none => some (db, .idle)
    | some (patch, data) =>
      (db.connections read.id).map fun stored => (db, .patching read.id patch data stored.config)
  | .idle, .begin connectionId intent =>
    (db.connections connectionId).map fun read => (db, .recovering read intent)
  | .recovering read intent, .expire now =>
    let closes := expires env.settings read.id now
    some (db.updateJobs closes (·.expire now),
      if db.jobs.any closes then .recovered read intent else .ready read intent)
  | .recovered read intent, .reactivate =>
    some (db.updateConnection read.id fun c => { c with status := .active, lastError := none },
      .ready read intent)
  | .ready read intent, .create jobId now pending =>
    if db.jobs.any fun job => job.id = jobId then none
    else match jobToCreate db read intent jobId now pending with
    | none => some (db, .idle)
    | some job => some (db.createJob job, afterCreate intent job)
  | .ready _ _, .busy => some (db, .idle)
  | .ready read (.tick types), .pick =>
    some (db, match (db.queuedJobs read.id types).head? with
      | some job => .holding job.id
      | none => .idle)
  | .holding jobId, .load =>
    match db.findJob jobId with
    | none => some (db, .idle)
    | some job => (db.connections job.connectionId).map fun read => (db, .loaded job read)
  | .loaded job read, .start now => some (db.updateJob job.id (·.start now), .started job read)
  | .started job read, .markSyncing now =>
    some (db.updateConnection read.id fun c => { c with status := .syncing, lastError := none },
      .running job read now)
  | .running job read syncStartedAt, .touch now step =>
    some (db.updateJob job.id (·.touch now step), .running job read syncStartedAt)
  | .running job read syncStartedAt, .subscribe patch =>
    (db.connections read.id).map fun stored =>
      (db, .subscribing job read syncStartedAt patch stored.config)
  | .subscribing job connection syncStartedAt patch read, .writeConfig =>
    some (db.writeConfig connection.id read patch {}, .running job connection syncStartedAt)
  -- the subscription is optional: its errors are counted and the job goes on
  | .subscribing job connection syncStartedAt _ _, .fail _ =>
    some (db, .running job connection syncStartedAt)
  | .running job _ _, .fail message => some (db, .catching job message)
  | .running job read syncStartedAt, .finish now stats =>
    some (db.updateJob job.id (·.succeed now stats), .finished job read syncStartedAt now)
  | .finished job read syncStartedAt finishedAt, .save grouped =>
    some (db.updateConnection read.id (saveFinished job read syncStartedAt finishedAt grouped), .idle)
  | .finished job _ _ _, .fail message => some (db, .catching job message)
  | .catching job message, .markError now stats =>
    some (db.updateJob job.id (·.fail now message stats), .caught job message)
  | .caught job message, .saveError =>
    some (db.updateConnection job.connectionId fun c =>
      { c with status := .error, lastError := some message }, .idle)
  | _, _ => none

end AmoAnalytics.Amo
