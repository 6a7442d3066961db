import AmoAnalytics.Lib.Table

/-!
# Data quality incidents

`DataQualityService.evaluate`: the findings of one evaluation, the incidents that they open, confirm and
resolve, and the check that is stored. The evaluations run one after another.
-/

namespace AmoAnalytics.Quality

/-! ## Findings -/

inductive Scope
  | global
  | reportNames (names : List String)
  deriving DecidableEq

/-- `QualityFinding`; every finding is `CRITICAL`. -/
structure Finding where
  code : String
  message : String
  immediate : Bool := false
  scope : Scope := .global
  deriving DecidableEq

/-- The columns of `AmoConnection` that are read. -/
structure ConnectionState where
  id : String
  status : String
  lastError : Option String
  lastPullSyncAt : Option ℤ
  lastReconcileAt : Option ℤ
  lastWebhookAppliedAt : Option ℤ
  lastFullSyncAt : Option ℤ

/-- `WorkerRuntime`. -/
structure WorkerRuntime where
  role : String
  heartbeatAt : ℤ
  buildId : String
  metricVersion : String

/-- What an evaluation reads, at the time `now`. -/
structure Readings where
  connection : Option ConnectionState
  now : ℤ
  workers : List WorkerRuntime
  failedRaw : ℕ
  oldestRaw : Option ℤ
  failedReports : List (Option String)
  oldestReportJob : Option ℤ
  activeDeals : ℕ
  factDeals : ℕ
  dealMismatches : ℕ
  historyRows : ℕ
  transitionRows : ℕ

/-- `release-info.ts`. -/
structure Release where
  buildId : String
  metricVersion : String

def requiredWorkerRoles : List String := ["sync", "report", "notification", "export", "bootstrap"]

def freshnessWarningMs : ℤ := 3 * 60_000

def freshnessBlockMs : ℤ := 10 * 60_000

def confirmationWindowMs : ℤ := 10 * 60_000

variable (r : Readings)

/-- The latest of the four times of the source. -/
def Readings.latestSourceAt : Option ℤ := r.connection.bind fun connection =>
  ([connection.lastPullSyncAt, connection.lastReconcileAt, connection.lastWebhookAppliedAt,
    connection.lastFullSyncAt].filterMap id).max?

/-- `freshnessLagMs`; `none` is infinity. -/
def Readings.freshnessLag : Option ℤ := r.latestSourceAt.map fun at_ => max 0 (r.now - at_)

def Readings.rawLag : ℤ := (r.oldestRaw.map fun receivedAt => r.now - receivedAt).getD 0

def Readings.reportLag : ℤ := (r.oldestReportJob.map fun requestedAt => r.now - requestedAt).getD 0

/-- The source has been synchronized as a whole. -/
def Readings.fullySynced : Bool := r.connection.any (·.lastFullSyncAt.isSome)

def Readings.requiredWorkers : List WorkerRuntime :=
  r.workers.filter fun worker => requiredWorkerRoles.contains worker.role

def WorkerRuntime.running (now : ℤ) (worker : WorkerRuntime) : Bool := now - worker.heartbeatAt ≤ 60_000

def Readings.missingWorkerRoles : List String := requiredWorkerRoles.filter fun role =>
  !(r.workers.filter (·.running r.now)).any (·.role = role)

def Readings.versionMismatch (release : Release) : List WorkerRuntime := r.requiredWorkers.filter fun worker =>
  worker.running r.now && (worker.buildId ≠ release.buildId || worker.metricVersion ≠ release.metricVersion)

def Readings.failedReportNames : List String := (r.failedReports.filterMap id).filter (· ≠ "")

/-- `if (condition) findings.push(finding)`. -/
def findingIf (condition : Bool) (finding : Finding) : List Finding := if condition then [finding] else []

/-- The findings of an evaluation. -/
def Readings.findings (release : Release) : List Finding :=
  findingIf r.connection.isNone
    { code := "AMO_CONNECTION_MISSING", message := "amoCRM не подключена", immediate := true } ++
  findingIf (r.connection.any (·.status = "ERROR") && r.freshnessLag.all (freshnessBlockMs ≤ ·))
    { code := "AMO_CONNECTION_ERROR"
      message := (r.connection.bind fun connection => connection.lastError.filter (· ≠ "")).getD
        "amoCRM недоступна"
      immediate := true } ++
  findingIf (r.fullySynced && r.connection.any fun connection =>
      connection.lastReconcileAt.all fun at_ => freshnessBlockMs ≤ r.now - at_)
    { code := "AMO_RECONCILE_STALE"
      message := "Контрольная сверка с amoCRM не выполнялась больше 10 минут", immediate := true } ++
  findingIf (freshnessBlockMs ≤ r.rawLag || 0 < r.failedRaw)
    { code := "RAW_EVENT_BACKLOG", message := "Очередь событий amoCRM не обработана вовремя"
      immediate := freshnessBlockMs ≤ r.rawLag } ++
  findingIf (freshnessBlockMs ≤ r.reportLag || 0 < r.failedReports.length)
    { code := "REPORT_REFRESH_FAILURE", message := "Снимки отчётов не обновляются вовремя"
      immediate := freshnessBlockMs ≤ r.reportLag
      scope := if r.failedReportNames.isEmpty then .global else .reportNames r.failedReportNames } ++
  findingIf (r.requiredWorkers.any fun worker => !worker.running r.now)
    { code := "WORKER_HEARTBEAT_STALE", message := "Один или несколько воркеров остановились"
      immediate := true } ++
  findingIf (r.fullySynced && !r.missingWorkerRoles.isEmpty)
    { code := "WORKER_MISSING", message := "Один или несколько обязательных воркеров не запущены"
      immediate := true } ++
  findingIf (!(r.versionMismatch release).isEmpty)
    { code := "RUNTIME_VERSION_MISMATCH", message := "API и воркеры запущены из разных версий"
      immediate := true } ++
  findingIf (r.fullySynced && (r.activeDeals ≠ r.factDeals || 0 < r.dealMismatches))
    { code := "FACT_DEAL_COVERAGE_MISMATCH"
      message := "Количество действующих сделок не совпадает с витриной отчётов" } ++
  findingIf (r.fullySynced && r.historyRows ≠ r.transitionRows)
    { code := "FACT_STAGE_HISTORY_COVERAGE_MISMATCH"
      message := "История этапов не совпадает с витриной отчётов" }

/-- The codes of the findings, in the order they are made. -/
def findingCodes : List String :=
  ["AMO_CONNECTION_MISSING", "AMO_CONNECTION_ERROR", "AMO_RECONCILE_STALE", "RAW_EVENT_BACKLOG",
    "REPORT_REFRESH_FAILURE", "WORKER_HEARTBEAT_STALE", "WORKER_MISSING", "RUNTIME_VERSION_MISMATCH",
    "FACT_DEAL_COVERAGE_MISMATCH", "FACT_STAGE_HISTORY_COVERAGE_MISMATCH"]

theorem Readings.findings_codes_sublist (release : Release) :
    ((r.findings release).map (·.code)).Sublist findingCodes := by
  have hif : ∀ c finding, ((findingIf c finding).map (·.code)).Sublist [finding.code] := by
    intro c finding
    cases c
    · exact List.nil_sublist _
    · exact List.Sublist.refl _
  have hall : findingCodes = ["AMO_CONNECTION_MISSING"] ++ ["AMO_CONNECTION_ERROR"] ++ ["AMO_RECONCILE_STALE"] ++
      ["RAW_EVENT_BACKLOG"] ++ ["REPORT_REFRESH_FAILURE"] ++ ["WORKER_HEARTBEAT_STALE"] ++ ["WORKER_MISSING"] ++
      ["RUNTIME_VERSION_MISMATCH"] ++ ["FACT_DEAL_COVERAGE_MISMATCH"] ++
      ["FACT_STAGE_HISTORY_COVERAGE_MISMATCH"] := rfl
  unfold Readings.findings
  simp only [List.map_append]
  rw [hall]
  repeat' apply List.Sublist.append
  all_goals exact hif _ _

/-- No code is found twice. -/
theorem Readings.findings_codes_nodup (release : Release) :
    ((r.findings release).map (·.code)).Nodup :=
  List.Nodup.sublist (r.findings_codes_sublist release) (by decide)

/-! ## Incidents -/

inductive IncidentStatus
  | open
  | resolved
  deriving DecidableEq

/-- `DataQualityIncident`. No statement reads `detections`, the times of the evaluations that found it. -/
structure Incident where
  id : ℕ
  connectionId : Option String
  code : String
  status : IncidentStatus := .open
  scope : Scope
  message : String
  detectionCount : ℕ := 1
  firstDetectedAt : ℤ
  lastDetectedAt : ℤ
  confirmedAt : Option ℤ
  resolvedAt : Option ℤ := none
  lastNotifiedAt : Option ℤ := none
  resolvedNotifiedAt : Option ℤ := none
  notificationCount : ℕ := 0
  detections : List ℤ
  deriving DecidableEq

inductive QualityStatus
  | certified
  | checking
  | blocked
  deriving DecidableEq

/-- `DataQualityCheck`. -/
structure QualityCheck where
  connectionId : Option String
  status : QualityStatus
  startedAt : ℤ

/-- The tables, the time of the last evaluation; `drawn` counts the ids of the incidents. -/
structure QualityDb where
  incidents : List Incident := []
  checks : List QualityCheck := []
  clock : ℤ := 0
  drawn : ℕ := 0

/-- The new incident of a finding; the database sets the times of its detection. -/
def newIncident (id : ℕ) (connectionId : Option String) (finding : Finding) (now createdAt : ℤ) : Incident :=
  { id, connectionId, code := finding.code, scope := finding.scope, message := finding.message
    firstDetectedAt := createdAt, lastDetectedAt := createdAt
    confirmedAt := if finding.immediate then some now else none, detections := [now] }

/-- The update of an incident that is found again; `existing` is the row that was read. -/
def Incident.detect (existing : Incident) (finding : Finding) (now : ℤ) (row : Incident) : Incident :=
  { row with
    scope := finding.scope, message := finding.message
    detectionCount := existing.detectionCount + 1, lastDetectedAt := now
    confirmedAt := existing.confirmedAt.or
      (if finding.immediate || (decide (3 ≤ existing.detectionCount + 1) &&
        decide (confirmationWindowMs ≤ now - existing.firstDetectedAt)) then some now else none)
    detections := row.detections ++ [now] }

def Incident.resolve (now : ℤ) (row : Incident) : Incident :=
  { row with status := .resolved, resolvedAt := some now }

/-- One step of the loop over the findings; `open_` are the incidents that were read. -/
def QualityDb.applyFinding (open_ : List Incident) (connectionId : Option String) (now createdAt : ℤ)
    (db : QualityDb) (finding : Finding) : QualityDb :=
  match open_.find? fun incident => incident.code = finding.code && incident.connectionId = connectionId with
  | none => { db with
      incidents := db.incidents ++ [newIncident db.drawn connectionId finding now createdAt]
      drawn := db.drawn + 1 }
  | some existing => { db with
      incidents := Table.updateWhere (·.id = existing.id) (existing.detect finding now) db.incidents }

/-- One step of the loop over the open incidents. -/
def QualityDb.resolveAbsent (connectionId : Option String) (codes : List String) (now : ℤ) (db : QualityDb)
    (incident : Incident) : QualityDb :=
  if incident.connectionId ≠ connectionId || codes.contains incident.code then db
  else { db with incidents := Table.updateWhere (·.id = incident.id) (·.resolve now) db.incidents }

/-- `synchronizeIncidents`. -/
def QualityDb.synchronizeIncidents (db : QualityDb) (connectionId : Option String) (findings : List Finding)
    (now createdAt : ℤ) : QualityDb :=
  let open_ := db.incidents.filter (·.status = .open)
  open_.foldl (QualityDb.resolveAbsent connectionId (findings.map (·.code)) now)
    (findings.foldl (QualityDb.applyFinding open_ connectionId now createdAt) db)

/-- The open incidents of a connection. -/
def QualityDb.openIncidents (db : QualityDb) (connectionId : Option String) : List Incident :=
  db.incidents.filter fun incident => incident.status = .open && incident.connectionId = connectionId

/-- One evaluation: when it started, what it read, and when the database stored new incidents. -/
structure Evaluation where
  startedAt : ℤ
  readings : Readings
  createdAt : ℤ

def Evaluation.connectionId (evaluation : Evaluation) : Option String :=
  evaluation.readings.connection.map (·.id)

/-- The status of an evaluation, after the incidents. -/
def QualityDb.evaluationStatus (db : QualityDb) (release : Release) (evaluation : Evaluation) :
    QualityStatus :=
  if (db.openIncidents evaluation.connectionId).any (·.confirmedAt.isSome) then .blocked
  else if !(evaluation.readings.findings release).isEmpty ||
      evaluation.readings.freshnessLag.all (freshnessWarningMs < ·) then .checking
  else .certified

/-- `evaluate`. -/
def QualityDb.evaluate (release : Release) (db : QualityDb) (evaluation : Evaluation) : QualityDb :=
  let next := db.synchronizeIncidents evaluation.connectionId (evaluation.readings.findings release)
    evaluation.startedAt evaluation.createdAt
  { next with
    checks := next.checks ++
      [⟨evaluation.connectionId, next.evaluationStatus release evaluation, evaluation.startedAt⟩]
    clock := evaluation.startedAt }

/-- The evaluations follow each other in time. -/
def qualityStep (release : Release) (db : QualityDb) (evaluation : Evaluation) : Option QualityDb :=
  if db.clock ≤ evaluation.startedAt ∧ evaluation.startedAt ≤ evaluation.createdAt then
    some (db.evaluate release evaluation)
  else none

end AmoAnalytics.Quality
