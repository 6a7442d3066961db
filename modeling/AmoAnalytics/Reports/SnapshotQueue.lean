import AmoAnalytics.Lib.Table
import AmoAnalytics.Lib.Workers

/-!
# Report snapshots and their refresh jobs

The tables `report_snapshot` and `report_snapshot_job` of `reports.service.ts` and the operations on
them: the direct computation, the requests that enqueue a refresh, the runner of the jobs. An operation
runs statement by statement; between two statements any other may act.
-/

namespace AmoAnalytics.Reports

/-! ## Tables -/

inductive RefreshStatus
  | idle
  | queued
  | running
  | error
  deriving DecidableEq

/-- `refresh_status IN ('QUEUED', 'RUNNING')`. -/
def RefreshStatus.refreshing (status : RefreshStatus) : Bool := status = .queued || status = .running

inductive JobStatus
  | queued
  | running
  | success
  | error
  deriving DecidableEq

/-- `status IN ('QUEUED', 'RUNNING')`. -/
def JobStatus.active (status : JobStatus) : Bool := status = .queued || status = .running

inductive QualityStatus
  | certified
  | checking
  | blocked
  deriving DecidableEq

/-- The time of a source state, or null. -/
abbrev SyncTime := Option ℤ

/-- The order of the times, a null first. -/
def SyncTime.le : SyncTime → SyncTime → Bool
  | none, _ => true
  | some _, none => false
  | some a, some b => a ≤ b

/-- `IS NULL OR … < limit`. -/
def SyncTime.before (time : SyncTime) (limit : ℤ) : Bool := time.all (· < limit)

/-- The payload: the placeholder of type `pending`, or a report. -/
inductive Payload
  | pending
  | report (content : String)
  deriving DecidableEq

/-- `report_snapshot`. `publishedRead` records which read of the source time the payload comes from; no
operation reads it. -/
structure Snapshot where
  cacheKey : String
  name : String
  payload : Payload := .pending
  reportConfig : Option String := none
  sourceSyncAt : SyncTime := none
  refreshStatus : RefreshStatus := .idle
  refreshRequestedAt : Option ℤ := none
  refreshingAt : Option ℤ := none
  refreshError : Option String := none
  lastAccessedAt : Option ℤ := none
  dataCutoffAt : SyncTime := none
  qualityStatus : QualityStatus := .checking
  updatedAt : ℤ
  publishedRead : Option ℕ := none
  deriving DecidableEq

/-- `report_snapshot_job`. -/
structure SnapshotJob where
  id : ℕ
  cacheKey : String
  status : JobStatus := .queued
  reportConfig : Option String
  requestedAt : ℤ
  startedAt : Option ℤ := none
  finishedAt : Option ℤ := none
  error : Option String := none
  createdAt : ℤ
  deriving DecidableEq

/-- The tables. `drawn` counts the job ids, `latestSyncAt` is the last time of the source, and `reads`
records the source times in the order in which computations read them. -/
structure ReportDb where
  snapshots : List Snapshot := []
  jobs : List SnapshotJob := []
  drawn : ℕ := 0
  latestSyncAt : SyncTime := none
  reads : List SyncTime := []

/-- What the deployment configures: the tolerance of stale payloads, and whether the period of a report
configuration still runs. -/
structure ReportEnv where
  staleToleranceMs : ℤ := 90_000
  periodOpen : String → ℤ → Bool

/-- A request for a report: the key, the name and the stored configuration. -/
structure ReportRequest where
  cacheKey : String
  name : String
  config : String

/-- A listed job, with its configuration or that of the snapshot. -/
structure ListedJob where
  id : ℕ
  cacheKey : String
  config : Option String

namespace ReportDb

variable (db : ReportDb)

def updateSnapshot (cacheKey : String) (f : Snapshot → Snapshot) : ReportDb :=
  { db with snapshots := Table.updateWhere (fun row => decide (row.cacheKey = cacheKey)) f db.snapshots }

def updateJob (id : ℕ) (f : SnapshotJob → SnapshotJob) : ReportDb :=
  { db with jobs := Table.updateWhere (fun job => decide (job.id = id)) f db.jobs }

def findSnapshot (cacheKey : String) : Option Snapshot :=
  db.snapshots.find? fun row => decide (row.cacheKey = cacheKey)

/-- A job of the key is queued or running. -/
def hasActiveJob (cacheKey : String) : Bool :=
  db.jobs.any fun job => job.cacheKey = cacheKey && job.status.active

/-- `COALESCE(job.report_config, snapshot.report_config)` of a job whose snapshot exists. -/
def jobConfig (job : SnapshotJob) : Option (Option String) :=
  (db.findSnapshot job.cacheKey).map fun row => job.reportConfig.or row.reportConfig

end ReportDb

/-! ## Statements -/

/-- The status of a snapshot that a request finds. -/
def Snapshot.request (now : ℤ) (row : Snapshot) : Snapshot :=
  if row.refreshStatus.refreshing then row
  else { row with refreshStatus := .queued, refreshRequestedAt := some now, updatedAt := now }

/-- The update of `enqueueReportCacheRefresh`. -/
def ReportDb.markForRefresh (db : ReportDb) (request : ReportRequest) (now : ℤ) : ReportDb :=
  db.updateSnapshot request.cacheKey fun row =>
    let marked := row.request now
    { marked with
      name := request.name, reportConfig := some request.config
      refreshError := if row.refreshStatus.refreshing then row.refreshError else none }

/-- The insert of `enqueueMissingReportSnapshot`. -/
def ReportDb.insertMissing (db : ReportDb) (request : ReportRequest) (now : ℤ) : ReportDb :=
  if (db.findSnapshot request.cacheKey).isSome then
    db.updateSnapshot request.cacheKey fun row =>
      { row.request now with
        name := request.name, reportConfig := some request.config, lastAccessedAt := some now }
  else
    { db with snapshots := db.snapshots ++ [{
        cacheKey := request.cacheKey, name := request.name, reportConfig := some request.config
        refreshStatus := .queued, refreshRequestedAt := some now, lastAccessedAt := some now
        updatedAt := now }] }

/-- `enqueueReportSnapshotJob`; the foreign key asks for the snapshot. -/
def ReportDb.enqueueJob (db : ReportDb) (cacheKey config : String) (now : ℤ) : ReportDb :=
  if db.hasActiveJob cacheKey || (db.findSnapshot cacheKey).isNone then db
  else
    { db with
      jobs := db.jobs ++ [⟨db.drawn, cacheKey, .queued, some config, now, none, none, none, now⟩]
      drawn := db.drawn + 1 }

/-- A job of `invalid_jobs`. -/
def ReportDb.invalidJob (db : ReportDb) (job : SnapshotJob) : Bool :=
  job.status.active && db.jobConfig job = some none

/-- `pruneInvalidReportCacheJobs`. Both parts of the statement read the tables as they were before it, so
the second still finds the jobs that the first deletes. -/
def ReportDb.prune (db : ReportDb) (now : ℤ) : ReportDb :=
  let invalid := db.jobs.filter db.invalidJob
  { db with
    jobs := db.jobs.filter fun job => !db.invalidJob job
    snapshots := Table.updateWhere
      (fun row => invalid.any (fun job => job.cacheKey = row.cacheKey) && !db.hasActiveJob row.cacheKey)
      (fun row => { row with refreshStatus := .idle, refreshingAt := none, refreshError := none
                             updatedAt := now }) db.snapshots }

/-- A lock older than two minutes. -/
def SnapshotJob.staleLock (now : ℤ) (job : SnapshotJob) : Bool :=
  job.status = .running && job.startedAt.any (· < now - 120_000)

/-- `requeueStaleReportCacheLocks`. -/
def ReportDb.requeue (db : ReportDb) (now : ℤ) : ReportDb :=
  let stale := db.jobs.filter (·.staleLock now)
  { db with
    jobs := Table.updateWhere (·.staleLock now)
      (fun job => { job with status := .queued, startedAt := none, error := none }) db.jobs
    snapshots := Table.updateWhere (fun row => stale.any fun job => job.cacheKey = row.cacheKey)
      (fun row => { row with refreshStatus := .queued, refreshingAt := none, updatedAt := now })
      db.snapshots }

/-- The queued jobs with a configuration, oldest first. -/
def ReportDb.listJobs (db : ReportDb) (limit : ℕ) : List ListedJob :=
  (((db.jobs.filter fun job => job.status = .queued && (db.jobConfig job).join.isSome).insertionSort
    fun a b => a.requestedAt < b.requestedAt ∨ a.requestedAt = b.requestedAt ∧ a.createdAt ≤ b.createdAt).map
      fun job => ⟨job.id, job.cacheKey, (db.jobConfig job).join⟩).take limit

/-- The lock of a job; `none` when the row is not queued any more. -/
def ReportDb.lockJob (db : ReportDb) (id : ℕ) (now : ℤ) : Option ReportDb :=
  if db.jobs.any fun job => job.id = id && job.status = .queued then
    some { db with
      jobs := Table.updateWhere (fun job => decide (job.id = id) && job.status = .queued)
        (fun job => { job with status := .running, startedAt := some now, error := none }) db.jobs }
  else none

def Snapshot.markRunning (now : ℤ) (row : Snapshot) : Snapshot :=
  { row with refreshStatus := .running, refreshingAt := some now, refreshError := none, updatedAt := now }

/-- What `saveCachedReport` writes. -/
structure SavedReport where
  content : String
  name : String
  config : String
  sourceSyncAt : SyncTime
  /-- The read of the source time before the computation. -/
  readAt : ℕ
  quality : QualityStatus
  cutoffAt : SyncTime
  /-- `DATA_QUALITY_ENFORCEMENT` is `enforce`. -/
  enforce : Bool

def SavedReport.publishes (saved : SavedReport) : Bool := !saved.enforce || saved.quality = .certified

def SavedReport.error (saved : SavedReport) : Option String :=
  if saved.publishes then none
  else if saved.quality = .blocked then some "Данные заблокированы проверкой качества"
  else some "Данные проходят проверку"

/-- The row that the upsert of `saveCachedReport` leaves of an old one. -/
def Snapshot.save (saved : SavedReport) (now : ℤ) (row : Snapshot) : Snapshot :=
  { row with
    name := saved.name
    payload := if saved.publishes then .report saved.content else row.payload
    reportConfig := some saved.config
    sourceSyncAt := if saved.publishes then saved.sourceSyncAt else row.sourceSyncAt
    refreshStatus := .idle, refreshRequestedAt := none, refreshingAt := none
    refreshError := saved.error, lastAccessedAt := some now
    dataCutoffAt := if saved.publishes then saved.cutoffAt else row.dataCutoffAt
    qualityStatus := saved.quality, updatedAt := now
    publishedRead := if saved.publishes then some saved.readAt else row.publishedRead }

/-- The row that it inserts. -/
def SavedReport.row (saved : SavedReport) (cacheKey : String) (now : ℤ) : Snapshot where
  cacheKey := cacheKey
  name := saved.name
  payload := if saved.publishes then .report saved.content else .pending
  reportConfig := some saved.config
  sourceSyncAt := saved.sourceSyncAt
  refreshError := saved.error
  lastAccessedAt := some now
  dataCutoffAt := saved.cutoffAt
  qualityStatus := saved.quality
  updatedAt := now
  publishedRead := if saved.publishes then some saved.readAt else none

/-- `saveCachedReport`. -/
def ReportDb.save (db : ReportDb) (cacheKey : String) (saved : SavedReport) (now : ℤ) : ReportDb :=
  if (db.findSnapshot cacheKey).isSome then db.updateSnapshot cacheKey (·.save saved now)
  else { db with snapshots := db.snapshots ++ [saved.row cacheKey now] }

/-- The snapshot of a key that the report has left. -/
def Snapshot.release (now : ℤ) (row : Snapshot) : Snapshot :=
  { row with
    reportConfig := none, refreshStatus := .idle, refreshingAt := none, refreshRequestedAt := none
    refreshError := none, updatedAt := now }

def Snapshot.fail (message : String) (now : ℤ) (row : Snapshot) : Snapshot :=
  { row with refreshStatus := .error, refreshingAt := none, refreshError := some message, updatedAt := now }

/-- The last update of a job: `SUCCESS`, or `ERROR` with a message. -/
def SnapshotJob.close (error : Option String) (now : ℤ) (job : SnapshotJob) : SnapshotJob :=
  { job with status := if error.isNone then .success else .error, finishedAt := some now, error := error }

/-- `cacheIsStale`. -/
def cacheIsStale (env : ReportEnv) (cached latest : SyncTime) : Bool :=
  match latest with
  | none => false
  | some latest => cached.before (latest - env.staleToleranceMs)

/-- A snapshot that `enqueueStaleReportCacheRefreshJobs` selects. -/
def ReportDb.staleRow (env : ReportEnv) (db : ReportDb) (latest : ℤ) (now : ℤ) (row : Snapshot) : Bool :=
  row.reportConfig.any (env.periodOpen · now) && !row.refreshStatus.refreshing &&
    row.sourceSyncAt.before (latest - env.staleToleranceMs) &&
    (row.refreshRequestedAt.any (now - 1_800_000 ≤ ·) || row.lastAccessedAt.any (now - 1_800_000 ≤ ·)) &&
    !db.hasActiveJob row.cacheKey

/-- The stale snapshots with their configurations, the oldest source first. -/
def ReportDb.staleRows (env : ReportEnv) (db : ReportDb) (latest now : ℤ) (limit : ℕ) :
    List (String × String) :=
  (((db.snapshots.filter (db.staleRow env latest now)).insertionSort
    fun a b => !b.sourceSyncAt.le a.sourceSyncAt ∨
      a.sourceSyncAt = b.sourceSyncAt ∧ a.updatedAt ≤ b.updatedAt).take limit).filterMap fun row => row.reportConfig.map fun config => (row.cacheKey, config)

/-- The update of `enqueueStaleReportCacheRefreshJobs`. -/
def Snapshot.markStale (now : ℤ) (row : Snapshot) : Snapshot :=
  { row with
    refreshStatus := .queued, refreshRequestedAt := some now, refreshError := none, updatedAt := now }

end AmoAnalytics.Reports
