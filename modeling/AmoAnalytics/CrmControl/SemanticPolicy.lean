import AmoAnalytics.CrmControl.SemanticValidation

/-!
# The policy of the semantic check

`crm-control-semantic.policy.ts`: the findings of an analyzer never decide a violation directly; which
facts must be present and which deadlines are allowed is decided here.
-/

namespace AmoAnalytics.CrmControl.Semantic

open JsText

inductive AssessmentStatus
  | pass
  | fail
  | unknown
  deriving DecidableEq

structure Assessment where
  status : AssessmentStatus
  message : String
  deriving DecidableEq

def unrelatedToMissingManagerNote (issue : Issue) : Bool :=
  issue.code = "INCOMPLETE_COMMUNICATIONS" ||
    (issue.code = "ANALYZER_UNCERTAIN" &&
      (issue.fact = some .customerAgreement || issue.fact = some .agreedDeadline))

/-- The response that the server makes itself: no manager note, and nothing said of the rest. -/
def missingNoteResponse (request : Request) : JsValue :=
  .obj [
    (js "schemaVersion", .num (some 1)),
    (js "requestId", .str request.requestId),
    (js "check", .str (js request.check.code)),
    (js "subjectId", (request.subjectId.map JsValue.str).getD .null),
    (js "inspectedSourceIds", .arr (request.sources.map fun source => .str source.id)),
    (js "findings", .arr ((requiredFacts .deadlineAgreement).map fun fact => .obj [
      (js "fact", .str (js fact.code)),
      (js "state", .str (js (if fact = .managerNote then "absent" else "uncertain"))),
      (js "evidence", .arr [])]))]

/-- A note of the manager in the time of the stage. -/
def isManagerNote (rt : Runtime) (stage observed : ℤ) (source : Source) : Bool :=
  source.kind = .managerNote && source.actor = .manager && !missing source.actorId && !blank source.text &&
    !missing source.createdAt &&
    ((source.createdAt.bind rt.dateParse).any fun createdAt => stage ≤ createdAt && createdAt ≤ observed)

/-- A necessary manager note cannot exist in a complete, verified empty note set. The outer `none` is an
exception. -/
def crmControlMissingManagerNoteProof (rt : Runtime) (request : Request) :
    Option (Option (JsValue × Validation)) :=
  if request.check ≠ .deadlineAgreement ∨ !request.coverage.notes ∨ missing request.maxDueAt then some none
  else
    match rt.dateParse (request.stageEnteredAt.getD []), rt.dateParse request.observedAt with
    | some stage, some observed =>
      if observed < stage || request.sources.any (isManagerNote rt stage observed) then some none
      else do
        let response := missingNoteResponse request
        let validation ← validateCrmControlSemanticResponse rt request response
        if validation.status = .invalid ∨ !validation.issues.all unrelatedToMissingManagerNote then some none
        else some (some (response, validation))
    | _, _ => some none

/-- The date covers the target: its minute, or its day on the clock of the time zone. -/
def dateCovers (rt : Runtime) (date : SemanticDate) (target timeZone : JsString) : Option Bool :=
  match rt.dateParse target with
  | none => some false
  | some at' =>
    if date.precision = .minute then some ((rt.dateParse date.value).any (at' ≤ ·))
    else (rt.dateTimeFormat timeZone).map fun formatter =>
      decide ¬(date.value < isoDay (civilTime at' formatter))

/-- The state of a fact among the findings. -/
def hasState (findings : List Finding) (fact : Fact) (state : String) : Bool :=
  findings.any fun finding => finding.fact = fact && finding.state.isText (js state)

def dateOf (findings : List Finding) (fact : Fact) : Option SemanticDate :=
  (findings.find? fun finding => finding.fact = fact).bind (·.date)

def notEnough : String := "Для смысловой проверки пока недостаточно подтверждённых данных."

def inconclusive : Assessment := ⟨.unknown, "Смысловая проверка не дала однозначного результата."⟩

def assessTask (findings : List Finding) : Assessment :=
  if hasState findings .action "absent" then
    ⟨.fail, "Текст задачи не описывает следующее действие по сделке."⟩
  else if hasState findings .stageRelevance "absent" then
    ⟨.fail, "Следующее действие не соответствует текущему этапу сделки."⟩
  else if [Fact.action, .stageRelevance].all (hasState findings · "present") then
    ⟨.pass, "В задаче указан следующий шаг, соответствующий этапу сделки."⟩
  else inconclusive

def assessProposal (rt : Runtime) (request : Request) (findings : List Finding) : Option Assessment :=
  if hasState findings .transferReason "absent" then
    some ⟨.fail, "В примечании нет причины переноса презентации текущего КП."⟩
  else if hasState findings .presentationDate "absent" then
    some ⟨.fail, "В примечании не указано, когда запланирована презентация КП."⟩
  else
    match dateOf findings .presentationDate with
    | some date =>
      if [Fact.transferReason, .presentationDate].all (hasState findings · "present") then
        (dateCovers rt date request.observedAt request.timeZone).map fun covers =>
          if covers then ⟨.pass, "В примечании есть причина переноса и дата презентации текущего КП."⟩
          else ⟨.fail, "Указанная в примечании дата презентации уже прошла."⟩
      else some inconclusive
    | none => some inconclusive

/-- A limit that is set and is a date. -/
def hasLimit (rt : Runtime) (request : Request) : Bool :=
  !missing request.maxDueAt && (request.maxDueAt.bind rt.dateParse).isSome

def assessDeadline (rt : Runtime) (request : Request) (findings : List Finding) (ruleCode : String) :
    Option Assessment :=
  if !hasLimit rt request then
    some ⟨.unknown, "Предельный срок этапа неизвестен; договорённость не заменяет настройку норматива."⟩
  else if hasState findings .managerNote "absent" then
    some ⟨.fail, "Превышение срока не обосновано примечанием менеджера."⟩
  else if hasState findings .customerAgreement "absent" || hasState findings .agreedDeadline "absent" then
    some ⟨.fail, "Перенос за норматив не подтверждён договорённостью с клиентом о новом сроке."⟩
  else
    match dateOf findings .agreedDeadline with
    | some date =>
      if [Fact.managerNote, .customerAgreement, .agreedDeadline].all (hasState findings · "present") then
        let target := if ruleCode = "task_stage_deadline" then request.taskDueAt else some request.observedAt
        if missing target then
          some ⟨.unknown, "Не установлен срок действия, который нужно сверить с договорённостью."⟩
        else
          (dateCovers rt date (target.getD []) request.timeZone).map fun covers =>
            if covers then
              ⟨.pass, "Превышение норматива подтверждено примечанием и договорённостью клиента; " ++
                "согласованный срок не нарушен."⟩
            else ⟨.fail, "Срок превышает даже подтверждённую договорённость с клиентом."⟩
      else some inconclusive
    | none => some inconclusive

def assessPrice (rt : Runtime) (request : Request) (findings : List Finding) : Assessment :=
  if !hasLimit rt request then
    ⟨.unknown, "Предельный срок получения цены неизвестен; сначала нужно подтвердить норматив."⟩
  else if hasState findings .priceDelayReason "present" then
    ⟨.pass, "В источниках есть подтверждение причины задержки получения цены."⟩
  else if hasState findings .priceDelayReason "absent" then
    ⟨.fail, "Норматив запроса цены превышен; подтверждения допустимой задержки нет."⟩
  else inconclusive

/-- The rules about the deadline of a stage. -/
def deadlineRule (ruleCode : String) : Bool :=
  ruleCode = "task_stage_deadline" || ruleCode = "stage_duration"

/-- The findings of a validated response under the rule. -/
def assessFindings (rt : Runtime) (request : Request) (findings : List Finding) (ruleCode : String) :
    Option Assessment :=
  match request.check with
  | .taskAction => some (if ruleCode = "task_text" then assessTask findings else inconclusive)
  | .proposalNote =>
    if ruleCode = "proposal_note" then assessProposal rt request findings else some inconclusive
  | .deadlineAgreement =>
    if deadlineRule ruleCode then assessDeadline rt request findings ruleCode else some inconclusive
  | .priceDelay =>
    some (if ruleCode = "price_requested_duration" then assessPrice rt request findings else inconclusive)

/-- The note is absent and nothing else speaks against that. -/
def noteAbsent (request : Request) (validation : Validation) (ruleCode : String) : Bool :=
  validation.status ≠ .invalid && request.check = .deadlineAgreement && deadlineRule ruleCode &&
    hasState validation.findings .managerNote "absent" && validation.issues.all unrelatedToMissingManagerNote

/-- `none` when an exception is thrown. -/
def assessCrmControlSemantic (rt : Runtime) (request : Request) (validation : Validation)
    (ruleCode : String) : Option Assessment :=
  if validation.requestId ≠ request.requestId ∨ validation.check ≠ request.check ∨
      validation.subjectId ≠ request.subjectId then some ⟨.unknown, notEnough⟩
  else do
    let proof ← if noteAbsent request validation ruleCode then crmControlMissingManagerNoteProof rt request
      else some none
    if proof.isSome then some ⟨.fail, "Превышение срока не обосновано примечанием менеджера."⟩
    else if validation.status ≠ .validated then
      some ⟨.unknown, if validation.status = .unknown ∧ request.sources = [] then
        "В сохранённом срезе нет текстовых источников для смысловой проверки. " ++
          "Отсутствие нужного примечания этим не подтверждено." else notEnough⟩
    else assessFindings rt request validation.findings ruleCode

/-- The outcome of a response under a rule, with the validation it rests on. -/
def outcome (rt : Runtime) (request : Request) (response : JsValue) (ruleCode : String) :
    Option (Validation × Assessment) := do
  let validation ← validateCrmControlSemanticResponse rt request response
  let assessment ← assessCrmControlSemantic rt request validation ruleCode
  some (validation, assessment)

end AmoAnalytics.CrmControl.Semantic
