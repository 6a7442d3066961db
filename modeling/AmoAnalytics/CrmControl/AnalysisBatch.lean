import AmoAnalytics.Lib.Paging
import AmoAnalytics.CrmControl.AnalysisJob

/-!
# The batches of the local analysis

`crm-control-analysis-batch.service.ts`: a batch walks over the observations of a finished run, page
by page, and enqueues an analysis for each result that is still open. Any number of processes run
`processQueue` statement by statement next to the processes of the analysis itself; a process may stop
at any point.
-/

namespace AmoAnalytics.CrmControl

/-! ## Tables -/

inductive BatchStatus
  | queued
  | running
  | completed
  | error
  deriving DecidableEq

/-- `CrmControlAnalysisBatch`. `deferredResults` lists what `deferred` counts. -/
structure AnalysisBatch where
  id : String
  runId : String
  requestKey : String
  scopeRole : String
  managerId : Option String := none
  groupId : Option String := none
  status : BatchStatus := .queued
  activeKey : Option String := none
  leaseToken : Option String := none
  leaseUntil : Option ℤ := none
  cursor : Option String := none
  processed : ℕ := 0
  queued : ℕ := 0
  deferred : ℕ := 0
  deferredResults : List String := []
  retryCount : ℕ := 0
  nextAttemptAt : Option ℤ := none
  errorCode : Option String := none
  createdAt : ℤ
  finishedAt : Option ℤ := none

/-- What the batches and the analysis write. -/
structure BatchDb where
  batches : List AnalysisBatch := []
  analysis : AnalysisDb := {}
  drawn : ℕ := 0

/-- `CrmControlAnalysisScope`. -/
structure AnalysisScope where
  role : String
  managerId : Option String := none
  groupId : Option String := none

/-- The observations of the finished runs with their results, which no longer change, and the builder
of requests. -/
structure SavedAudit where
  observations : List Observation
  id_unique : (observations.map (·.id)).Nodup
  id_nonempty : ∀ o ∈ observations, o.id ≠ ""
  results : List ResultRow
  buildRequest : Observation → ResultRow → Option Json

def batchKey : String := "analysis-batch"
def batchLeaseMs : ℤ := 120_000
def batchPageSize : ℕ := 20

/-- `RULES`. -/
def analyzableRules : List String :=
  ["task_text", "proposal_note", "task_stage_deadline", "stage_duration", "price_requested_duration"]

/-! ## Scope and page -/

/-- `!value` for a nullable text is the negation. -/
def present (value : Option String) : Bool := value.any (· ≠ "")

/-- The scope of a batch is one of the three that are known, with its group or manager. -/
def validScope (role : String) (managerId groupId : Option String) : Bool :=
  ["OWNER", "ROP", "MANAGER"].contains role && !(role = "ROP" && !present groupId) &&
    !(role = "MANAGER" && !present managerId)

/-- `where` of the observations of a batch. -/
def AnalysisBatch.covers (batch : AnalysisBatch) (o : Observation) : Bool :=
  o.runId = batch.runId &&
    if batch.scopeRole = "ROP" then o.groupId = batch.groupId
    else if batch.scopeRole = "MANAGER" then o.managerId = batch.managerId
    else true

namespace SavedAudit

variable (audit : SavedAudit)

def inScope (batch : AnalysisBatch) : List Observation := audit.observations.filter (batch.covers ·)

/-- The open results of an observation that can be analysed. -/
def openResults (o : Observation) : List ResultRow :=
  audit.results.filter fun r => r.observationId = o.id && analyzableRules.contains r.ruleCode &&
    (r.status = .review || r.status = .unknown)

def page (candidate : AnalysisBatch) : List Observation :=
  Paging.page Observation.id (candidate.cursor.filter (· ≠ "")) batchPageSize (audit.inScope candidate)

end SavedAudit

/-! ## Statements -/

namespace BatchDb

variable (db : BatchDb)

def updateBatches (p : AnalysisBatch → Bool) (f : AnalysisBatch → AnalysisBatch) : BatchDb :=
  { db with batches := Table.updateWhere p f db.batches }

/-- The batch of the same scope that is still under way. -/
def pending (runId : String) (scope : AnalysisScope) : Option AnalysisBatch :=
  db.batches.find? fun b => b.runId = runId && b.scopeRole = scope.role &&
    b.managerId = scope.managerId && b.groupId = scope.groupId && (b.status = .queued || b.status = .running)

/-- The upsert by `requestKey`; its update half is empty. -/
def upsert (env : Env) (runId : String) (scope : AnalysisScope) (requestKey : String) (createdAt : ℤ) :
    BatchDb :=
  if db.batches.any fun b => b.requestKey = requestKey then db
  else
    { db with
      batches := db.batches ++ [{ id := env.uuid db.drawn, runId, requestKey, scopeRole := scope.role
                                  managerId := scope.managerId, groupId := scope.groupId, createdAt }]
      drawn := db.drawn + 1 }

/-- The batch to work on next, by creation. -/
def candidate (now : ℤ) : Option AnalysisBatch :=
  ((db.batches.filter fun b => b.status = .queued && b.nextAttemptAt.all (· ≤ now)).insertionSort
    fun a b => a.createdAt < b.createdAt ∨ (a.createdAt = b.createdAt ∧ a.id ≤ b.id)).head?

end BatchDb

def expiredBatch (now : ℤ) (b : AnalysisBatch) : Bool :=
  b.status = .running && b.leaseUntil.any (· ≤ now)

def AnalysisBatch.expire (b : AnalysisBatch) : AnalysisBatch :=
  { b with status := .queued, activeKey := none, leaseToken := none, leaseUntil := none }

/-- `where` of the claim: nothing but the status of the candidate is compared. -/
def claimableBatch (candidate b : AnalysisBatch) : Bool := b.id = candidate.id && b.status = .queued

def AnalysisBatch.claim (now : ℤ) (leaseToken : String) (b : AnalysisBatch) : AnalysisBatch :=
  { b with
    status := .running, activeKey := some batchKey, leaseToken := some leaseToken
    leaseUntil := some (now + batchLeaseMs), errorCode := none }

/-- The claim. The unique `activeKey` refuses a second running batch. -/
def BatchDb.claim (env : Env) (now : ℤ) (candidate : AnalysisBatch) (db : BatchDb) : Option BatchDb :=
  if db.batches.any (claimableBatch candidate) then
    if db.batches.any fun b => b.id ≠ candidate.id && b.activeKey = some batchKey then none
    else some { db.updateBatches (claimableBatch candidate) (·.claim now (env.uuid db.drawn)) with
      drawn := db.drawn + 1 }
  else none

/-- A batch as it was read before its claim, and the token of the claim. -/
structure BatchLease where
  candidate : AnalysisBatch
  leaseToken : String

/-- `where` of every later statement: the lease is current and has not expired. -/
def BatchLease.holds (lease : BatchLease) (now : ℤ) (b : AnalysisBatch) : Bool :=
  b.id = lease.candidate.id && b.status = .running && b.leaseToken = some lease.leaseToken &&
    b.activeKey = some batchKey && b.leaseUntil.any (now < ·)

def AnalysisBatch.renew (now : ℤ) (b : AnalysisBatch) : AnalysisBatch :=
  { b with leaseUntil := some (now + batchLeaseMs) }

/-! ## A page at work -/

/-- The rows of the page, the results still to be enqueued, and what was done with the others. -/
structure BatchPage where
  rows : List Observation
  todo : List (Observation × ResultRow)
  queued : ℕ := 0
  deferred : List String := []

def BatchPage.of (audit : SavedAudit) (rows : List Observation) : BatchPage where
  rows := rows
  todo := rows.flatMap fun o => (audit.openResults o).map fun r => (o, r)

/-- The result at work is queued. -/
def BatchPage.queue (page : BatchPage) : BatchPage :=
  { page with todo := page.todo.tail, queued := page.queued + 1 }

/-- The result at work is deferred. -/
def BatchPage.defer (page : BatchPage) : BatchPage :=
  { page with
    todo := page.todo.tail
    deferred := (page.todo.head?.map (·.2.id)).toList ++ page.deferred }

/-- The update at the end of a page. -/
def AnalysisBatch.advance (b candidate : AnalysisBatch) (page : BatchPage) (now : ℤ) : AnalysisBatch :=
  { b with
    status := if page.rows.length < batchPageSize then .completed else .queued
    activeKey := none, leaseToken := none, leaseUntil := none
    cursor := Paging.nextCursor Observation.id candidate.cursor page.rows
    processed := b.processed + page.rows.length, queued := b.queued + page.queued
    deferred := b.deferred + page.deferred.length
    deferredResults := page.deferred ++ b.deferredResults
    finishedAt := if page.rows.length < batchPageSize then some now else none
    retryCount := 0, nextAttemptAt := none }

/-- The update after an error. -/
def AnalysisBatch.fail (b candidate : AnalysisBatch) (now : ℤ) : AnalysisBatch :=
  let retry := decide (candidate.retryCount < 2)
  { b with
    status := if retry then .queued else .error
    activeKey := none, leaseToken := none, leaseUntil := none, errorCode := some "ENQUEUE_FAILED"
    retryCount := b.retryCount + 1
    nextAttemptAt := if retry then some (now + 30_000 * 2 ^ candidate.retryCount) else none
    finishedAt := if retry then none else some now }

/-- `requestKey.startsWith('automatic:')`. -/
def automatic (requestKey : String) : Bool := "automatic:".toList.isPrefixOf requestKey.toList

/-- How `enqueue` of the analysis ends for one result: with a job, because the analysis is switched
off, because the request does not fit the saved data, or with another error. -/
inductive EnqueueOutcome
  | job (inputHash : String) (request : Json) (options : AnalysisOptions) (createdAt : ℤ)
  | disabled
  | badRequest
  | failed

/-- The job of a request. -/
def AnalysisDb.jobOf (r : AnalysisRequest) (db : AnalysisDb) : Option AnalysisJob :=
  db.jobs.find? fun j => j.resultId = r.resultId ∧ j.inputHash = r.inputHash ∧
    j.analyzerVersion = analyzerVersion

/-! ## Processes -/

/-- Where a process stands between two statements. A process of the analysis stands in `analysis`. -/
inductive BatchThread
  | idle
  | started (now : ℤ)
  | recovered (now : ℤ)
  /-- `enqueue`, before and after the search for a pending batch, and the time at which `processQueue`
  goes on. -/
  | enqueuing (runId : String) (scope : AnalysisScope) (requestKey : String) (next : Option ℤ)
  | upserting (runId : String) (scope : AnalysisScope) (requestKey : String) (next : Option ℤ)
  | selecting (now : ℤ)
  | claiming (now : ℤ) (candidate : AnalysisBatch)
  | claimed (lease : BatchLease)
  | reading (lease : BatchLease)
  /-- Before the lease is renewed for the next result, or before the page is saved. -/
  | results (lease : BatchLease) (page : BatchPage)
  /-- The lease is renewed; the first result of `todo` is at work. -/
  | owned (lease : BatchLease) (page : BatchPage)
  /-- The job of the result stands on `ERROR` and was asked for by hand. -/
  | errorJob (lease : BatchLease) (page : BatchPage) (jobId : String)
  | retrying (lease : BatchLease) (page : BatchPage) (retry : AnalysisThread)
  /-- In the `catch`. -/
  | failing (lease : BatchLease)
  | analysis (thread : AnalysisThread)

/-- The end of `enqueue`. -/
def BatchThread.enqueued : Option ℤ → BatchThread
  | some now => .selecting now
  | none => .idle

inductive BatchAct
  /-- A request of a person, or the start of `processQueue`. -/
  | request (runId : String) (scope : AnalysisScope) (requestKey : String)
  | processQueue (now : ℤ)
  /-- The latest saved run with its scope and request key, if there is one. -/
  | latest (run : Option (String × AnalysisScope × String))
  /-- The next statement, at the time it reads. -/
  | advance (now : ℤ)
  | enqueue (outcome : EnqueueOutcome)
  /-- A statement in the `try` fails. -/
  | throw
  | crash
  | analysis (a : AnalysisAct)

/-- The result at work is enqueued. -/
def enqueueResult (lease : BatchLease) (page : BatchPage) (o : Observation) (result : ResultRow)
    (db : BatchDb) (env : Env) : EnqueueOutcome → BatchDb × BatchThread
  | .job inputHash request options createdAt =>
    let r : AnalysisRequest := ⟨result.id, o.snapshotHash, inputHash, request, options⟩
    let db := { db with analysis := db.analysis.enqueue env r createdAt }
    match (db.analysis.jobOf r).filter fun job => job.status = .error ∧
      !automatic lease.candidate.requestKey with
    | some job => (db, .errorJob lease page job.id)
    | none => (db, .results lease page.queue)
  | .badRequest => (db, .results lease page.defer)
  | .disabled => (db, .failing lease)
  | .failed => (db, .failing lease)

/-- A lease statement: when the lease no longer holds, the process returns. -/
def whileHeld (lease : BatchLease) (now : ℤ) (db : BatchDb) (f : AnalysisBatch → AnalysisBatch)
    (next : BatchThread) : BatchDb × BatchThread :=
  if db.batches.any (lease.holds now) then (db.updateBatches (lease.holds now) f, next) else (db, .idle)

/-- The program of a process. -/
def batchAct (env : Env) (analyzer : Analyzer) (audit : SavedAudit) (db : BatchDb) :
    BatchThread → BatchAct → Option (BatchDb × BatchThread)
  | .idle, .request runId scope requestKey =>
    if validScope scope.role scope.managerId scope.groupId then
      some (db, .enqueuing runId scope requestKey none)
    else some (db, .idle)
  | .idle, .processQueue now => some (db, .started now)
  | .started now, .advance _ =>
    some (db.updateBatches (expiredBatch now) (·.expire), .recovered now)
  | .recovered now, .latest none => some (db, .selecting now)
  | .recovered now, .latest (some (runId, scope, requestKey)) =>
    if validScope scope.role scope.managerId scope.groupId then
      some (db, .enqueuing runId scope requestKey (some now))
    else some (db, .idle)
  | .enqueuing runId scope requestKey next, .advance _ =>
    if (db.pending runId scope).isSome then some (db, .enqueued next)
    else some (db, .upserting runId scope requestKey next)
  | .upserting runId scope requestKey next, .advance now =>
    some (db.upsert env runId scope requestKey now, .enqueued next)
  | .selecting now, .advance _ =>
    match db.candidate now with
    | some candidate => some (db, .claiming now candidate)
    | none => some (db, .idle)
  | .claiming now candidate, .advance _ =>
    match db.claim env now candidate with
    | some db' => some (db', .claimed ⟨candidate, env.uuid db.drawn⟩)
    | none => some (db, .idle)
  | .claimed lease, .advance _ =>
    if validScope lease.candidate.scopeRole lease.candidate.managerId lease.candidate.groupId then
      some (db, .reading lease)
    else some (db, .failing lease)
  | .reading lease, .advance _ =>
    some (db, .results lease (.of audit (audit.page lease.candidate)))
  | .results lease page, .advance now =>
    match page.todo with
    | [] => some (db.updateBatches (lease.holds now) (·.advance lease.candidate page now), .idle)
    | _ :: _ => some (whileHeld lease now db (·.renew now) (.owned lease page))
  | .owned lease page, .enqueue outcome =>
    match page.todo with
    | [] => none
    | (o, result) :: _ =>
      if (audit.buildRequest o result).isNone then some (db, .results lease page.defer)
      else some (enqueueResult lease page o result db env outcome)
  | .errorJob lease page jobId, .advance now =>
    some (whileHeld lease now db (·.renew now) (.retrying lease page
      (if validRequestKey lease.candidate.requestKey then .granting jobId lease.candidate.requestKey
        else .idle)))
  | .retrying lease page .idle, .advance _ => some (db, .results lease page.queue)
  | .retrying lease page retry, .advance _ =>
    let (analysis, retry) := retry.advance env db.analysis
    some ({ db with analysis }, .retrying lease page retry)
  | .failing lease, .advance now =>
    some (db.updateBatches (lease.holds now) (·.fail lease.candidate now), .idle)
  | .reading lease, .throw => some (db, .failing lease)
  | .results lease _, .throw => some (db, .failing lease)
  | .owned lease _, .throw => some (db, .failing lease)
  | .errorJob lease _ _, .throw => some (db, .failing lease)
  | .retrying lease _ _, .throw => some (db, .failing lease)
  | .idle, .analysis a =>
    (analysisAct env analyzer db.analysis .idle a).map fun p =>
      ({ db with analysis := p.1 }, .analysis p.2)
  | .analysis thread, .analysis a =>
    (analysisAct env analyzer db.analysis thread a).map fun p =>
      ({ db with analysis := p.1 }, .analysis p.2)
  | _, .crash => some (db, .idle)
  | _, _ => none

end AmoAnalytics.CrmControl
