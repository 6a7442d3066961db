import AmoAnalytics.CrmControl.Store

/-!
# Saving an observation

`persistObservation` of `crm-control.service.ts`: the assessment of archived offers before the
transaction, and the transaction that saves the observation, its results and what they do to the
cases of the deal.
-/

namespace AmoAnalytics.CrmControl

/-! ## The digest of the assessed facts -/

def StageRef.field (key : String) : StageRef → Details
  | .unset => []
  | .absent => [(key, .null)]
  | .stage id => [(key, .str id)]

def numField (key : String) (value : Option ℚ) : Details :=
  (value.map fun n => (key, Json.num n)).toList

def StageRule.json (rule : StageRule) : Json :=
  .obj ((rule.allowedTaskTypeIds.map fun ids => ("allowedTaskTypeIds", Json.arr (ids.map .num))).toList ++
    (rule.deadlineMode.map fun mode => ("deadlineMode", Json.str mode.code)).toList ++
    numField "maxDurationHours" rule.maxDurationHours ++ numField "maxBusinessDays" rule.maxBusinessDays)

def Scope.json (scope : Scope) : Json :=
  .obj ([("department", .str scope.department.code), ("pipelineId", .str scope.pipelineId)] ++
    scope.assignedStageId.field "assignedStageId" ++ scope.newClientStageId.field "newClientStageId" ++
    scope.baseStageId.field "baseStageId" ++
    scope.preparedProposalStageId.field "preparedProposalStageId" ++
    scope.priceRequestedStageId.field "priceRequestedStageId" ++
    (scope.checkDealAge.map fun check => ("checkDealAge", Json.bool check)).toList ++
    [("stageRules", .obj (scope.stageRules.map fun rule => (rule.1, rule.2.json)))])

/-- The notes a result refers to by `details.noteIds`. -/
def citedNotes (input : RuleInput) (details : Details) : List Note :=
  match JsMap.get? "noteIds" details with
  | some (.arr ids) => input.notes.filter fun note => ids.any fun id =>
      match id with
      | .str id => id = noteSubject note
      | _ => false
  | _ => []

/-- The details that move with the clock. -/
def clockDetails : List String := ["elapsedHours", "dueToday", "overdue"]

/-- What an assessment rests on. -/
def assessmentFacts (input : RuleInput) (result : RuleResult) : Json :=
  let details := (result.details.getD []).filter fun field => field.1 ∉ clockDetails
  .obj [("ruleCode", .str result.ruleCode), ("details", .obj details),
    ("stageId", .str input.deal.stageId), ("scope", input.scope.json),
    ("agePolicy", .str input.config.maxDealAge.code),
    ("notes", .arr ((citedNotes input details).map fun note =>
      .obj [("id", .str note.externalId), ("type", .str note.type), ("text", .ofText note.text),
        ("raw", note.raw)]))]

def assessmentHash (env : Env) (input : RuleInput) (result : RuleResult) : String :=
  env.sha256 (assessmentFacts input result)

/-! ## Archived offers -/

def RuleResult.isOffer (result : RuleResult) : Bool :=
  result.status ≠ .na && ["offer_budget", "proposal_file"].contains result.ruleCode

/-- `snapshot?.reconciliation`, where the code writes it. -/
def isReconciliation (snapshot : Json) : Bool :=
  match snapshot with
  | .obj fields => Details.isTrue (some fields) "reconciliation"
  | _ => false

def ownerUnverified : String := "Ответственный за сделку не подтверждён; документы не сравнивались."

/-- An offer result of a deal whose owner is not confirmed. -/
def unverifiedOffer (result : RuleResult) : RuleResult :=
  { result with
    status := .unknown
    message := ownerUnverified
    details := some (Details.spread (result.details.getD [])
      [("verificationMethod", .str "ARCHIVED_OFFER_V1"),
        ("offerAnalysis", .obj [("version", .num 1), ("historyStatus", .str "UNVERIFIED"),
          ("issues", .ofTexts ["DEAL_OWNER_UNVERIFIED"]), ("reasons", .ofTexts [ownerUnverified]),
          ("inspectedDocuments", .num 0), ("candidates", .arr []), ("evidence", .arr [])])]) }

/-- An offer result with the assessment of the archived documents. -/
def assessedOffer (assessment : OfferAssessment) (result : RuleResult) : RuleResult :=
  let rule := if result.ruleCode = "offer_budget" then assessment.offerBudget
    else assessment.proposalFile
  { result with
    status := rule.status
    message := rule.message
    details := some (Details.spread (Details.spread (result.details.getD []) rule.details)
      [("verificationMethod", .str "ARCHIVED_OFFER_V1"),
        ("offerAnalysis", .obj (Details.spread assessment.details
          [("issues", .ofTexts (JsMap.distinct (assessment.issues ++ rule.issues))),
            ("evidence", rule.evidence)]))]) }

/-- File reads and deterministic interpretation happen before the locks of the store. -/
def assessOffers (env : Env) (input : RuleInput) (observationId : String) (snapshot : Json)
    (results : List RuleResult) : Except ServiceError (List RuleResult) :=
  if !isReconciliation snapshot && results.any RuleResult.isOffer then
    match input.deal.responsibleId.filter (· ≠ "") with
    | none => .ok (results.map fun result =>
        if result.isOffer then unverifiedOffer result else result)
    | some ownerId =>
      match env.assessArchivedOffer
          ⟨input.deal.id, ownerId, observationId, env.sha256 snapshot, snapshot⟩ with
      | none => .error .unexpected
      | some assessment => .ok (results.map fun result =>
          if result.isOffer then assessedOffer assessment result else result)
  else .ok results

/-! ## The transaction -/

/-- The names shown with an observation. -/
structure Labels where
  pipelineName : String
  stageName : String
  managerName : Option String
  groupId : Option String
  groupName : Option String
  dealUrl : String

/-- The arguments of `persistObservation`. -/
structure PersistArgs where
  runId : String
  input : RuleInput
  results : List RuleResult
  snapshot : Json
  labels : Labels
  leaseStartedAt : ℤ

/-- The run is still executed by the attempt that holds the lease. -/
def holdsLease (db : Db) (runId : String) (startedAt : ℤ) : Bool :=
  db.runs.any fun run => run.id = runId ∧ run.status = .running ∧ run.activeKey = some "global" ∧
    run.startedAt = some startedAt

def caseActiveKey (dealId : String) (result : RuleResult) : String :=
  dealId ++ ":" ++ result.ruleCode ++ ":" ++ result.subject

/-- A confirmed or exempted case whose facts changed is closed and a new episode begins. -/
def factsChanged (env : Env) (input : RuleInput) (result : RuleResult) (previous : CaseRow) : Bool :=
  (previous.confirmedAt.isSome || previous.status = .exempted) && result.detects &&
    previous.assessmentHash ≠ assessmentHash env input result

def supersede (db : Db) (id : String) : Db :=
  db.updateCases (fun c => c.id = id) fun c => { c with status := .superseded, activeKey := none }

/-- The data of the update half of the upsert. -/
def CaseRow.observe (state : CaseStatus) (hash observationId : String) (observedAt : ℤ)
    (previous : Option CaseRow) (c : CaseRow) : CaseRow :=
  if state = .resolved then
    { c with
      status := state, assessmentHash := hash, latestObservationId := observationId
      activeKey := none
      resolvedAt := (previous.bind (·.resolvedAt)).or (some observedAt) }
  else
    { c with
      status := state, assessmentHash := hash, latestObservationId := observationId
      lastDetectedAt := observedAt, resolvedAt := none }

/-- The row of the create half of the upsert. -/
def newCase (id : String) (input : RuleInput) (result : RuleResult) (state : CaseStatus)
    (hash observationId : String) (observedAt : ℤ) : CaseRow where
  id := id
  caseKey := caseActiveKey input.deal.id result ++ ":" ++ observationId
  activeKey := some (caseActiveKey input.deal.id result)
  dealId := input.deal.id
  ruleCode := result.ruleCode
  subjectId := result.subject
  status := state
  firstDetectedAt := observedAt
  lastDetectedAt := observedAt
  assessmentHash := hash
  latestObservationId := observationId

/-- The upsert by `activeKey`, and the id of the case it leaves. -/
def upsertCase (env : Env) (input : RuleInput) (result : RuleResult) (state : CaseStatus)
    (observationId : String) (observedAt : ℤ) (previous : Option CaseRow) (db : Db) :
    Except ServiceError (Db × String) :=
  let activeKey := caseActiveKey input.deal.id result
  let hash := assessmentHash env input result
  match db.findActive activeKey with
  | some c => .ok (db.updateCases (fun c => c.activeKey = some activeKey)
      (·.observe state hash observationId observedAt previous), c.id)
  | none => do
    let id := env.uuid db.drawn
    let db ← db.insertCase (newCase id input result state hash observationId observedAt)
    .ok (db, id)

/-- The live case of a result. A case whose facts changed is superseded first, and is then no
longer the previous one. -/
def previousCase (env : Env) (input : RuleInput) (result : RuleResult) (db : Db) :
    Db × Option CaseRow :=
  match db.findActive (caseActiveKey input.deal.id result) with
  | none => (db, none)
  | some c => if factsChanged env input result c then (supersede db c.id, none) else (db, some c)

/-- What a result does to its case, and the id of the case it belongs to. -/
def observeCase (env : Env) (input : RuleInput) (observationId : String) (observedAt : ℤ) (db : Db)
    (result : RuleResult) : Except ServiceError (Db × Option String) :=
  let (db, previous) := previousCase env input result db
  match nextControlCaseState (previous.map (·.state)) result observedAt with
  | none => .ok (db, previous.map (·.id))
  | some state => do
    let (db, id) ← upsertCase env input result state observationId observedAt previous db
    .ok (db, some id)

def resultRow (id observationId : String) (result : RuleResult) (caseId : Option String) :
    ResultRow where
  id := id
  observationId := observationId
  ruleCode := result.ruleCode
  ruleName := result.ruleName
  subjectId := result.subject
  status := result.status
  message := result.message
  clauses := result.clauses
  details := result.details.getD []
  caseId := caseId

/-- One turn of the loop over the results. -/
def persistResult (env : Env) (input : RuleInput) (observationId : String) (observedAt : ℤ)
    (db : Db) (result : RuleResult) : Except ServiceError Db := do
  let (db, caseId) ← observeCase env input observationId observedAt db result
  db.insertResult (resultRow (env.uuid db.drawn) observationId result caseId)

def persistResults (env : Env) (input : RuleInput) (observationId : String) (observedAt : ℤ) :
    Db → List RuleResult → Except ServiceError Db
  | db, [] => .ok db
  | db, result :: results => do
    let db ← persistResult env input observationId observedAt db result
    persistResults env input observationId observedAt db results

/-- `data` of the two bulk updates. -/
def CaseRow.resolve (observedAt : ℤ) (observationId : String) (c : CaseRow) : CaseRow :=
  { c with
    status := .resolved, activeKey := none
    resolvedAt := some observedAt, latestObservationId := observationId }

/-- The rules whose cases belong to a task. -/
def taskRuleCodes : List String := ["task_deadline", "task_type", "task_text", "task_stage_deadline"]

def activeIds (input : RuleInput) : List String :=
  (input.tasks.filter fun task => !task.isCompleted).map taskSubject

/-- `where` of the update that closes the cases of tasks that are no longer open. -/
def goneTask (input : RuleInput) (c : CaseRow) : Bool :=
  c.dealId = input.deal.id ∧ c.ruleCode ∈ taskRuleCodes ∧ c.subjectId ≠ "" ∧
    c.subjectId ∉ activeIds input ∧ c.status ≠ .resolved

def resolveGoneTasks (input : RuleInput) (observationId : String) (observedAt : ℤ) (db : Db) : Db :=
  if input.sourceCompleteness.tasks && input.sourceCompleteness.deal then
    db.updateCases (goneTask input) (·.resolve observedAt observationId)
  else db

/-- An explicit unlimited policy does not depend on receiving every current task. -/
def resolvesAllSubjects (results : List RuleResult) : Bool :=
  results.any fun result => result.ruleCode = "task_stage_deadline" && result.status = .na &&
    Details.isTrue result.details "resolvesAllSubjects"

def unlimitedStage (input : RuleInput) (c : CaseRow) : Bool :=
  c.dealId = input.deal.id ∧ c.ruleCode = "task_stage_deadline" ∧ c.activeKey ≠ none

def resolveUnlimited (input : RuleInput) (results : List RuleResult) (observationId : String)
    (observedAt : ℤ) (db : Db) : Db :=
  if input.sourceCompleteness.deal && resolvesAllSubjects results then
    db.updateCases (unlimitedStage input) (·.resolve observedAt observationId)
  else db

/-- The request for a screenshot of the deal. -/
def evidenceRow (env : Env) (id observationId sourceUrl : String) (missing : Option String) : Evidence where
  id := id
  observationId := observationId
  status := if env.screenshots then .pending else .disabled
  sourceUrl := sourceUrl
  error := if env.screenshots then none else env.captureMessage.or missing

def requestEvidence (env : Env) (results : List RuleResult) (observationId dealUrl : String) (db : Db) :
    Except ServiceError Db :=
  if results.any RuleResult.detects then
    db.insertEvidence (evidenceRow env (env.uuid db.drawn) observationId dealUrl
      (some "Снимки amoCRM не подключены"))
  else .ok db

def observationRow (env : Env) (args : PersistArgs) (results : List RuleResult) (id : String)
    (observedAt : ℤ) : Observation where
  id := id
  runId := args.runId
  dealId := args.input.deal.id
  dealExternalId := args.input.deal.externalId
  dealTitle := args.input.deal.title
  dealUrl := args.labels.dealUrl
  managerId := args.input.deal.responsibleId
  managerName := args.labels.managerName
  groupId := args.labels.groupId
  groupName := args.labels.groupName
  department := args.input.scope.department
  pipelineId := args.input.deal.pipelineId
  pipelineName := args.labels.pipelineName
  stageId := args.input.deal.stageId
  stageName := args.labels.stageName
  observedAt := observedAt
  snapshot := args.snapshot
  snapshotHash := env.sha256 args.snapshot
  counts := observationCounts results

/-- The observation of the deal that the run has already saved. -/
def Db.savedObservation (db : Db) (runId dealId : String) : Option Observation :=
  db.observations.find? fun o => decide (o.runId = runId ∧ o.dealId = dealId)

/-- The statements after the lease check and the lookup of a saved observation. -/
def saveObservation (env : Env) (args : PersistArgs) (results : List RuleResult) (observedAt : ℤ)
    (db : Db) : Except ServiceError (Db × Observation) := do
  let observationId := env.uuid db.drawn
  let row := observationRow env args results observationId observedAt
  let db ← db.insertObservation row
  let db ← persistResults env args.input observationId observedAt db results
  let db := resolveGoneTasks args.input observationId observedAt db
  let db := resolveUnlimited args.input results observationId observedAt db
  let db ← requestEvidence env results observationId args.labels.dealUrl db
  .ok (db, row)

def persistObservation (env : Env) (args : PersistArgs) (db : Db) :
    Except ServiceError (Db × Observation) := do
  let results ← assessOffers env args.input (env.uuid db.drawn) args.snapshot args.results
  if !holdsLease db args.runId args.leaseStartedAt then
    .error (.controlRun "Проверка больше не выполняется.")
  else match db.savedObservation args.runId args.input.deal.id with
  | some existing => .ok (db, existing)
  | none =>
    match args.input.observedAt with
    | none => .error .unexpected
    | some observedAt => saveObservation env args results observedAt db

end AmoAnalytics.CrmControl
