import AmoAnalytics.Lib.Run
import AmoAnalytics.Lib.Transaction
import AmoAnalytics.CrmControl.Observation

/-!
# Decisions and manual reviews

`effectiveStatus`, `decide` and `reviewResult` of `crm-control.service.ts`, and the store as a
state machine whose actions are these operations and `persistObservation`.
-/

namespace AmoAnalytics.CrmControl

/-! ## Who may see what -/

inductive Role
  | owner
  | rop (groupId : String)
  | manager (managerId : String)
  deriving DecidableEq

structure Access where
  role : Role
  actorId : String
  actorName : String
  deriving DecidableEq

/-- `scopeWhere`. -/
def Access.sees (access : Access) (o : Observation) : Bool :=
  match access.role with
  | .owner => true
  | .rop groupId => o.groupId = some groupId
  | .manager managerId => o.managerId = some managerId

def Access.isManager (access : Access) : Bool :=
  match access.role with
  | .manager _ => true
  | _ => false

def visibleObservation (access : Access) (id : String) (db : Db) : Except ServiceError Observation :=
  match (db.findObservation id).filter (access.sees ·) with
  | some o => .ok o
  | none => .error (.notFound "Сделка в проверке не найдена")

/-! ## The effective status of a result -/

/-- `a` stands before `b` in the order by time and then by id, both descending. -/
def Decision.newer (a b : Decision) : Bool :=
  b.createdAt < a.createdAt || (a.createdAt = b.createdAt && b.id < a.id)

/-- The first decision in the order of `newer`. -/
def newestDecision : List Decision → Option Decision
  | [] => none
  | d :: ds =>
    match newestDecision ds with
    | none => some d
    | some e => if e.newer d then some e else some d

def DecisionAction.isReview : DecisionAction → Bool
  | .verify _ => true
  | _ => false

/-- The decisions that speak about a result: reviews of this very observation, and confirmations or
exemptions that were made on it or before it. -/
def applies (result : ResultRow) (observedAt : ℤ) (decision : Decision) : Bool :=
  if decision.action.isReview then decision.observationId = result.observationId
  else (result.status = .fail || result.status = .review) &&
    (decision.action = .confirm || decision.action = .exempt) &&
    (decision.observationId = result.observationId || decision.createdAt ≤ observedAt)

/-- The decisions of the case of a result. -/
def Db.decisionsOf (db : Db) (result : ResultRow) : List Decision :=
  db.decisions.filter fun d => result.caseId = some d.caseId

def AnalysisOutcome.status : AnalysisOutcome → ResultStatus
  | .pass => .pass
  | .fail => .fail

def effectiveStatus (db : Db) (result : ResultRow) (observedAt : ℤ) : ResultStatus :=
  let decision := newestDecision ((db.decisionsOf result).filter (applies result observedAt))
  let assessed := ((db.analysisOutcome result.id).map (·.status)).getD result.status
  match decision with
  | none => assessed
  | some decision =>
    match decision.action with
    | .verify outcome => outcome.status
    | .exempt => if decision.validUntil.any (observedAt ≤ ·) then .na else assessed
    | .confirm => .fail
    | .dispute => assessed

/-! ## Decisions on a case -/

structure DecisionInput where
  action : DecisionAction
  reason : String
  validUntil : Option ℤ

/-- The clock readings of one call: when the deadline is checked, when the case is confirmed and
when the decision is dated. -/
structure DecisionClock where
  checkedAt : ℤ
  confirmedAt : ℤ
  decidedAt : ℤ

def decidedStatus : DecisionAction → CaseStatus
  | .confirm => .opened
  | .exempt => .exempted
  | _ => .disputed

/-- `data` of the update of the case. -/
def CaseRow.decided (body : DecisionInput) (confirmedAt : ℤ) (c : CaseRow) : CaseRow :=
  { c with
    status := decidedStatus body.action
    exemptionUntil := if body.action = .exempt then body.validUntil else none
    confirmedAt := if body.action = .confirm then some confirmedAt
      else if body.action = .exempt then none else c.confirmedAt }

/-- The time of a new decision: now, but after the last one on this observation. -/
def decisionTime (now : ℤ) (last : Option Decision) : ℤ :=
  max now ((last.map fun d => d.createdAt + 1).getD 0)

/-- The newest decision of a case on one observation. -/
def Db.lastDecision (db : Db) (caseId observationId : String) : Option Decision :=
  newestDecision (db.decisions.filter fun d => d.caseId = caseId ∧ d.observationId = observationId)

def decisionRow (env : Env) (db : Db) (access : Access) (o : Observation) (caseId : String)
    (action : DecisionAction) (reason : String) (validUntil : Option ℤ) (createdAt : ℤ) : Decision where
  id := env.uuid db.drawn
  caseId := caseId
  observationId := o.id
  actorId := access.actorId
  actorName := access.actorName
  managerId := o.managerId
  groupId := o.groupId
  action := action
  reason := reason
  validUntil := validUntil
  createdAt := createdAt

/-- The results of the observation that belong to the case. -/
def caseResults (db : Db) (item : CaseRow) (o : Observation) : List ResultRow :=
  db.results.filter fun r => r.observationId = o.id ∧ r.caseId = some item.id

/-- The checks of `decide` before its transaction. -/
def decideRefusal (db : Db) (access : Access) (item : CaseRow) (o : Observation)
    (body : DecisionInput) (checkedAt : ℤ) : Option ServiceError :=
  if body.action.isReview ∨ utf16Length (trim body.reason) < 5 ∨ 4000 < utf16Length body.reason then
    some (.badRequest "Укажите действие и содержательное обоснование")
  else if access.isManager ∧ body.action ≠ .dispute then
    some (.forbidden "Менеджер может только оспорить нарушение")
  else if body.action ≠ .dispute ∧ (caseResults db item o = [] ∨ (caseResults db item o).any fun r =>
      r.status = .unknown || effectiveStatus db r o.observedAt ≠ .fail) then
    some (.badRequest "Сначала выполните ручную допроверку пункта с объяснением и ссылкой на подтверждение")
  else if item.status.Closed then some (.badRequest "Этот эпизод уже завершён")
  else if body.action = .exempt ∧ ¬ body.validUntil.any (checkedAt < ·) then
    some (.badRequest "Укажите будущую дату окончания исключения")
  else none

/-- The decision the caller saw last; a case without results in the observation shows none. -/
def expectedDecision (db : Db) (item : CaseRow) (o : Observation) : Option Decision :=
  if caseResults db item o = [] then none else db.lastDecision item.id o.id

def Service.decide (env : Env) (access : Access) (id : String) (body : DecisionInput) (clock : DecisionClock)
    (db : Db) : Except ServiceError Db :=
  match db.findCase id with
  | none => .error (.notFound "Нарушение не найдено")
  | some item =>
    match visibleObservation access item.latestObservationId db with
    | .error e => .error e
    | .ok o =>
      match decideRefusal db access item o body clock.checkedAt with
      | some e => .error e
      | none =>
        let last := db.lastDecision id o.id
        if last.map (·.id) ≠ (expectedDecision db item o).map (·.id) then
          .error (.conflict "Решение уже изменилось. Обновите карточку")
        else
          let current := fun c : CaseRow => c.id = id ∧ c.status = item.status ∧
            c.latestObservationId = item.latestObservationId
          if db.cases.countP (fun c => current c) ≠ 1 then
            .error (.badRequest "Состояние изменилось. Обновите карточку")
          else
            let db := db.updateCases (fun c => current c) (·.decided body clock.confirmedAt)
            .ok (db.insertDecision (decisionRow env db access o id body.action (trim body.reason)
              (if body.action = .exempt then body.validUntil else none)
              (decisionTime clock.decidedAt last)))

/-! ## Manual review of a result -/

structure ManualReviewInput where
  outcome : ReviewOutcome
  reason : String
  evidence : String
  expectedDecisionId : Option String

/-- The link to the evidence, without credentials. -/
def reviewEvidence (env : Env) (body : ManualReviewInput) : Except ServiceError Url :=
  match env.parseUrl (trim body.evidence) with
  | none => .error (.badRequest "Укажите полную ссылку http(s) на проверенное подтверждение")
  | some url =>
    if (url.protocol ≠ "http:" ∧ url.protocol ≠ "https:") ∨ url.username ≠ "" ∨ url.password ≠ "" then
      .error (.badRequest "Допустима ссылка http(s) без учётных данных")
    else .ok url

def reviewBodyValid (body : ManualReviewInput) : Bool :=
  20 ≤ utf16Length (trim body.reason) && utf16Length body.reason ≤ 4000 &&
    utf16Length body.evidence ≤ 2048 &&
    body.expectedDecisionId.all fun id => 0 < utf16Length id && utf16Length id ≤ 100

/-- The case of a review of a result that had none. -/
def reviewCase (env : Env) (id : String) (o : Observation) (result : ResultRow) : CaseRow where
  id := id
  caseKey := "review:" ++ result.id
  activeKey := none
  dealId := o.dealId
  ruleCode := result.ruleCode
  subjectId := result.subjectId
  status := .review
  firstDetectedAt := o.observedAt
  lastDetectedAt := o.observedAt
  assessmentHash := env.sha256 (.str (o.snapshotHash ++ ":" ++ result.id))
  latestObservationId := o.id

def Db.findResult (db : Db) (id observationId : String) : Option ResultRow :=
  db.results.find? fun r => decide (r.id = id ∧ r.observationId = observationId)

/-- `updateMany({ where: { id, caseId: null }, data: { caseId } })`. -/
def linkResult (resultId caseId : String) (db : Db) : Db :=
  { db with
    results := Table.updateWhere (fun r => r.id = resultId ∧ r.caseId = none)
      (fun r => { r with caseId := some caseId }) db.results }

/-- Link a result without a case to a new one. -/
def ensureCase (env : Env) (o : Observation) (result : ResultRow) (db : Db) :
    Except ServiceError (Db × String) :=
  match result.caseId with
  | some caseId => .ok (db, caseId)
  | none => do
    let id := env.uuid db.drawn
    let db ← db.insertCase (reviewCase env id o result)
    .ok (linkResult result.id id db, id)

/-- An existing image is never replaced. -/
def ensureEvidenceForObservation (env : Env) (o : Observation) (db : Db) : Except ServiceError Db :=
  if db.evidence.any fun e => e.observationId = o.id then .ok db
  else db.insertEvidence (evidenceRow env (env.uuid db.drawn) o.id o.dealUrl none)

def Service.reviewResult (env : Env) (access : Access) (observationId resultId : String)
    (body : ManualReviewInput) (now : ℤ) (db : Db) : Except ServiceError Db := do
  let o ← visibleObservation access observationId db
  if access.isManager then
    .error (.forbidden "Ручную проверку может выполнить только руководитель")
  else match db.findResult resultId observationId with
  | none => .error (.notFound "Пункт в этой проверке не найден")
  | some result =>
    if !reviewBodyValid body then
      .error (.badRequest "Укажите результат, объяснение от 20 символов и ссылку на проверенное подтверждение")
    else
      let url ← reviewEvidence env body
      if !controlManualReviewAllowed result.status result.ruleCode result.message result.details then
        .error (.badRequest "Этот пункт нельзя допроверить вручную: повторите автоматическую проверку после наступления срока")
      else
        let (db, caseId) ← ensureCase env o result db
        let last := db.lastDecision caseId observationId
        if last.map (·.id) ≠ body.expectedDecisionId then
          .error (.conflict "Решение уже изменилось. Обновите карточку и проверьте результат")
        else
          let db := db.insertDecision (decisionRow env db access o caseId (.verify body.outcome)
            (trim body.reason ++ "\nИсточник: " ++ url.href) none (decisionTime now last))
          if body.outcome = .fail then ensureEvidenceForObservation env o db else .ok db

/-! ## The store as a state machine -/

inductive Op
  | persist (args : PersistArgs)
  | decide (access : Access) (id : String) (body : DecisionInput) (clock : DecisionClock)
  | review (access : Access) (observationId resultId : String) (body : ManualReviewInput) (now : ℤ)
  /-- The run queue writes the runs. -/
  | queue (runs : List Run)
  /-- The local analysis writes its outcomes. -/
  | analyse (outcomes : List (String × AnalysisOutcome))

def step (env : Env) (db : Db) : Op → Option Db
  | .persist args => some (Transaction.commit db ((persistObservation env args db).map Prod.fst))
  | .decide access id body clock => some (Transaction.commit db (Service.decide env access id body clock db))
  | .review access observationId resultId body now =>
    some (Transaction.commit db (Service.reviewResult env access observationId resultId body now db))
  | .queue runs => some { db with runs }
  | .analyse outcomes => some { db with analysisOutcomes := outcomes }

/-- Every operation is enabled, so every run has an end. -/
theorem run_eq_some (env : Env) (db : Db) (ops : List Op) :
    Run.run (step env) db ops = some ((Run.run (step env) db ops).getD {}) := by
  induction ops generalizing db with
  | nil => rfl
  | cons op ops ih =>
    cases op <;> exact ih _

/-! ## A sample environment -/

namespace Sample

/-- Identifiers `u`, `uu`, …. -/
def uuid (n : ℕ) : String := String.ofList (List.replicate (n + 1) 'u')

theorem uuid_injective : Function.Injective uuid := by
  intro a b h
  have hlen := congrArg (fun s : String => s.toList.length) h
  simpa [uuid] using hlen

theorem uuid_free (n : ℕ) : JoinedKey.Free ':' (uuid n) := by
  simp [JoinedKey.Free, uuid, List.mem_replicate]

/-- A digest that tells the sample texts apart: the details of the facts, one after the other. -/
def sha256 : Json → String
  | .str s => s
  | .obj fields =>
    match JsMap.get? "details" fields with
    | some (.obj details) => details.foldl (fun acc field => acc ++ field.1 ++ "=" ++
        match field.2 with
        | .str s => s ++ ";"
        | _ => ";") ""
    | _ => "snapshot"
  | _ => "snapshot"

/-- Moscow time, three hours ahead of UTC. -/
def moscow : Formatter := fun ms =>
  let local' := ms + 3 * CivilDate.hour
  { year := CivilDate.utcYear local', month := CivilDate.utcMonth local' + 1
    day := CivilDate.utcDate local'
    hour := CivilDate.timeOfDay local' / CivilDate.hour
    minute := CivilDate.timeOfDay local' / 60_000 % 60
    second := CivilDate.timeOfDay local' / 1_000 % 60 }

/-- No documents are archived, so nothing is compared. -/
def noDocuments : OfferAssessment where
  offerBudget := ⟨.unknown, "Нет сохранённых документов.", [], [], .arr []⟩
  proposalFile := ⟨.unknown, "Нет сохранённых документов.", [], [], .arr []⟩
  details := [("version", .num 1), ("historyStatus", .str "UNVERIFIED")]
  issues := []

def environment : Env where
  uuid := uuid
  uuid_injective := uuid_injective
  uuid_free := uuid_free
  sha256 := sha256
  dateTimeFormat := fun zone => if zone = "Europe/Moscow" then some moscow else none
  parseUrl := fun s => some ⟨s, "https:", "", ""⟩
  assessArchivedOffer := fun _ => some noDocuments
  screenshots := true
  captureMessage := none

def owner : Access := ⟨.owner, "owner", "Owner"⟩

/-- A run that an attempt started at `startedAt` holds. -/
def run (id : String) (startedAt : ℤ) : Run where
  id := id
  activeKey := some "global"
  status := .running
  scheduledFor := startedAt
  startedAt := some startedAt
  timeZone := "Europe/Moscow"
  createdAt := startedAt

def task (text : String) : Task := ⟨"amo:7", "7", text, some 1, none, false, .null⟩

/-- A deal with the given tasks, read completely. -/
def input (tasks : List Task) (observedAt : ℤ) : RuleInput where
  deal := ⟨"amo:42", "42", "Сделка", some 0, "pipeline", "stage", some "manager"⟩
  tasks := tasks
  notes := []
  communications := []
  stageEnteredAt := none
  observedAt := some observedAt
  sourceCompleteness := ⟨true, true, true, false, false⟩
  config := { timeZone := "Europe/Moscow" }
  scope := { department := .sales, pipelineId := "pipeline" }

def labels : Labels := ⟨"Продажи", "Новая", some "Менеджер", none, none, "https://crm.example/42"⟩

/-- The text rule of the task, with the given status. -/
def textResult (task : Task) (status : ResultStatus) : RuleResult :=
  ruleResult true .taskText status "" { subjectId := some "7", details := some (taskDetails task) }

/-- An observation of the sample deal by the run `runId`. -/
def persist (runId : String) (observedAt : ℤ) (tasks : List Task) (results : List RuleResult) : Op :=
  .persist ⟨runId, input tasks observedAt, results, .null, labels, observedAt⟩

end Sample

end AmoAnalytics.CrmControl
