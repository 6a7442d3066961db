import AmoAnalytics.Lib.JoinedKey
import AmoAnalytics.Lib.Table
import AmoAnalytics.CrmControl.Logic

/-!
# The store of the CRM control

The tables of `schema.prisma` that the CRM control writes, and the statements that insert into
them. A unique index refuses the row that would break it; a transaction that fails leaves the
store as it was.
-/

namespace AmoAnalytics.CrmControl

/-! ## The runtime -/

structure OfferRequest where
  dealId : String
  ownerId : String
  observationId : String
  snapshotHash : String
  snapshot : Json

/-- The validation of one offer rule. -/
structure OfferRule where
  status : ResultStatus
  message : String
  details : Details
  issues : List String
  evidence : Json

structure OfferAssessment where
  offerBudget : OfferRule
  proposalFile : OfferRule
  details : Details
  issues : List String

structure Url where
  href : String
  protocol : String
  username : String
  password : String

/-- What the code takes from its runtime and from services outside this model: fresh identifiers,
the digest of a JSON text, time zones, the parser of links, the assessment of archived offers and
the screenshot service. -/
structure Env where
  uuid : ℕ → String
  uuid_injective : Function.Injective uuid
  uuid_free : ∀ n, JoinedKey.Free ':' (uuid n)
  sha256 : Json → String
  dateTimeFormat : String → Option Formatter
  parseUrl : String → Option Url
  assessArchivedOffer : OfferRequest → Option OfferAssessment
  screenshots : Bool
  captureMessage : Option String

/-! ## Rows -/

inductive RunStatus
  | queued
  | running
  | completed
  | partially
  | error
  deriving DecidableEq

/-- The JSON of `counts` of a run: `{}` until the first attempt. -/
structure RunCounts where
  counts : Option Counts := none
  executionAttempts : Option ℕ := none
  deriving DecidableEq

/-- `CrmControlRun`, with the columns that the run queue reads or writes. -/
structure Run where
  id : String
  activeKey : Option String := none
  status : RunStatus := .queued
  scheduledFor : ℤ
  startedAt : Option ℤ := none
  heartbeatAt : Option ℤ := none
  finishedAt : Option ℤ := none
  sourceSyncAt : Option ℤ := none
  timeZone : String
  ruleVersion : String := "1"
  counts : RunCounts := {}
  issues : List String := []
  error : Option String := none
  createdAt : ℤ
  deriving DecidableEq

structure Observation where
  id : String
  runId : String
  dealId : String
  dealExternalId : String
  dealTitle : String
  dealUrl : String
  managerId : Option String
  managerName : Option String
  groupId : Option String
  groupName : Option String
  department : Department
  pipelineId : String
  pipelineName : String
  stageId : String
  stageName : String
  observedAt : ℤ
  snapshot : Json
  snapshotHash : String
  counts : Counts

structure ResultRow where
  id : String
  observationId : String
  ruleCode : String
  ruleName : String
  subjectId : String
  status : ResultStatus
  message : String
  clauses : List String
  details : Details
  caseId : Option String

structure CaseRow where
  id : String
  caseKey : String
  activeKey : Option String
  dealId : String
  ruleCode : String
  subjectId : String
  status : CaseStatus
  firstDetectedAt : ℤ
  lastDetectedAt : ℤ
  resolvedAt : Option ℤ := none
  exemptionUntil : Option ℤ := none
  confirmedAt : Option ℤ := none
  assessmentHash : String
  latestObservationId : String
  deriving DecidableEq

def CaseRow.state (c : CaseRow) : CaseState where
  status := c.status
  exemptionUntil := c.exemptionUntil
  confirmedAt := c.confirmedAt

inductive ReviewOutcome
  | pass
  | fail
  | na
  deriving DecidableEq

def ReviewOutcome.status : ReviewOutcome → ResultStatus
  | .pass => .pass
  | .fail => .fail
  | .na => .na

inductive DecisionAction
  | confirm
  | exempt
  | dispute
  | verify (outcome : ReviewOutcome)
  deriving DecidableEq

structure Decision where
  id : String
  caseId : String
  observationId : String
  actorId : String
  actorName : String
  managerId : Option String
  groupId : Option String
  action : DecisionAction
  reason : String
  validUntil : Option ℤ
  createdAt : ℤ
  deriving DecidableEq

inductive EvidenceStatus
  | disabled
  | pending
  deriving DecidableEq

structure Evidence where
  id : String
  observationId : String
  status : EvidenceStatus
  sourceUrl : String
  error : Option String

/-- The outcome of an accepted local analysis. -/
inductive AnalysisOutcome
  | pass
  | fail
  deriving DecidableEq

/-- The store: the tables, the accepted analysis outcome of each result, and the number of
identifiers drawn so far. -/
structure Db where
  runs : List Run := []
  observations : List Observation := []
  results : List ResultRow := []
  cases : List CaseRow := []
  decisions : List Decision := []
  evidence : List Evidence := []
  analysisOutcomes : List (String × AnalysisOutcome) := []
  drawn : ℕ := 0

/-- The exceptions of the service. -/
inductive ServiceError
  | notFound (message : String)
  | badRequest (message : String)
  | forbidden (message : String)
  | conflict (message : String)
  | controlRun (message : String)
  | uniqueViolation (index : String)
  | unexpected
  deriving DecidableEq

/-! ## Statements -/

namespace Db

variable (db : Db)

def insertObservation (row : Observation) : Except ServiceError Db :=
  if db.observations.any fun o => o.runId = row.runId ∧ o.dealId = row.dealId then
    .error (.uniqueViolation "CrmControlObservation.runId_dealId")
  else .ok { db with observations := db.observations ++ [row], drawn := db.drawn + 1 }

def insertCase (row : CaseRow) : Except ServiceError Db :=
  if db.cases.any fun c => c.caseKey = row.caseKey then
    .error (.uniqueViolation "CrmControlCase.caseKey")
  else if row.activeKey.isSome ∧ (db.cases.any fun c => c.activeKey = row.activeKey) then
    .error (.uniqueViolation "CrmControlCase.activeKey")
  else .ok { db with cases := db.cases ++ [row], drawn := db.drawn + 1 }

def insertResult (row : ResultRow) : Except ServiceError Db :=
  if db.results.any fun r => r.observationId = row.observationId ∧ r.ruleCode = row.ruleCode ∧
      r.subjectId = row.subjectId then
    .error (.uniqueViolation "CrmControlResult.observationId_ruleCode_subjectId")
  else .ok { db with results := db.results ++ [row], drawn := db.drawn + 1 }

def insertEvidence (row : Evidence) : Except ServiceError Db :=
  if db.evidence.any fun e => e.observationId = row.observationId then
    .error (.uniqueViolation "CrmControlEvidence.observationId")
  else .ok { db with evidence := db.evidence ++ [row], drawn := db.drawn + 1 }

def insertDecision (row : Decision) : Db :=
  { db with decisions := db.decisions ++ [row], drawn := db.drawn + 1 }

def updateCases (p : CaseRow → Bool) (f : CaseRow → CaseRow) : Db :=
  { db with cases := Table.updateWhere p f db.cases }

/-- `findUnique({ where: { activeKey } })`. -/
def findActive (activeKey : String) : Option CaseRow :=
  db.cases.find? fun c => decide (c.activeKey = some activeKey)

/-- `findUnique({ where: { id } })`. -/
def findCase (id : String) : Option CaseRow := db.cases.find? fun c => decide (c.id = id)

def findObservation (id : String) : Option Observation :=
  db.observations.find? fun o => decide (o.id = id)

def analysisOutcome (resultId : String) : Option AnalysisOutcome :=
  (db.analysisOutcomes.find? fun a => decide (a.1 = resultId)).map Prod.snd

end Db

end AmoAnalytics.CrmControl
