import AmoAnalytics.CrmControl.Deadline

/-!
# The rule engine

`evaluateCrmControlDeal` of `crm-control.rules.ts`: the checks common to all rules, then one
definition for each rule of the deal and one for the rules of a task, over a `Context` that holds
the values the source computes once.
-/

namespace AmoAnalytics.CrmControl

open CivilDate

inductive RuleCode
  | intakeStage
  | taskDeadline
  | taskCount
  | taskType
  | taskText
  | taskStageDeadline
  | stageDuration
  | proposalNote
  | dealAge
  | offerBudget
  | proposalFile
  | priceRequestedDuration
  deriving DecidableEq

namespace RuleCode

def code : RuleCode → String
  | intakeStage => "intake_stage"
  | taskDeadline => "task_deadline"
  | taskCount => "task_count"
  | taskType => "task_type"
  | taskText => "task_text"
  | taskStageDeadline => "task_stage_deadline"
  | stageDuration => "stage_duration"
  | proposalNote => "proposal_note"
  | dealAge => "deal_age"
  | offerBudget => "offer_budget"
  | proposalFile => "proposal_file"
  | priceRequestedDuration => "price_requested_duration"

/-- `RULE_NAMES`. -/
def name : RuleCode → String
  | intakeStage => "Необработанная сделка"
  | taskDeadline => "Задача на сегодня или просрочена"
  | taskCount => "Количество открытых задач"
  | taskType => "Тип следующей задачи"
  | taskText => "Содержание следующей задачи"
  | taskStageDeadline => "Срок следующей задачи"
  | stageDuration => "Срок нахождения на этапе"
  | proposalNote => "Обоснование переноса презентации КП"
  | dealAge => "Возраст сделки"
  | offerBudget => "Сумма предложения и бюджет"
  | proposalFile => "Последняя отправленная версия КП"
  | priceRequestedDuration => "Срок запроса цены"

/-- `Object.keys(RULE_NAMES)`. -/
def all : List RuleCode :=
  [intakeStage, taskDeadline, taskCount, taskType, taskText, taskStageDeadline, stageDuration,
    proposalNote, dealAge, offerBudget, proposalFile, priceRequestedDuration]

/-- The clauses of the regulations behind a rule, for the department. -/
def clauses (sales : Bool) (code : RuleCode) : List String :=
  let department := if sales then "ОПНК" else "ОППК"
  let taskClause := department ++ if sales then " 5" else " 6"
  match code with
  | intakeStage => [department ++ " 1"]
  | taskDeadline => [department ++ " 2", department ++ " 3"]
  | taskCount => if sales then [taskClause] else ["ОППК 4", taskClause]
  | taskType => [taskClause]
  | taskText => [taskClause]
  | taskStageDeadline => [taskClause]
  | stageDuration => [taskClause]
  | proposalNote => [department ++ if sales then " 4" else " 5"]
  | dealAge => [department ++ if sales then " 6" else " 7"]
  | offerBudget => [department ++ if sales then " 7" else " 8"]
  | proposalFile => [department ++ if sales then " 8" else " 9"]
  | priceRequestedDuration => ["ОППК 10"]

theorem code_injective : Function.Injective code := by
  intro a b h
  cases a <;> cases b <;> first | rfl | exact absurd h (by decide)

end RuleCode

/-! ## The subject and the text of a task -/

def taskSubject (task : Task) : String := orElse task.externalId task.id

/-- The task's own text where the source carries one; the display title otherwise. -/
def taskText (task : Task) : String :=
  match task.raw with
  | .obj fields =>
    match JsMap.get? "text" fields with
    | some (.str text) => trim text
    | some _ => ""
    | none => trim task.title
  | _ => trim task.title

def noteSubject (note : Note) : String := orElse note.externalId note.id

/-- The same day of the next calendar month, or its last day. -/
def nextCalendarMonth (civil : ℤ) : ℤ :=
  let first := utc (utcYear civil) (utcMonth civil + 1) 1 0
  let lastDay := utcDate (utc (utcYear first) (utcMonth first + 1) 0 0)
  utc (utcYear first) (utcMonth first) (min (utcDate civil) lastDay) (timeOfDay civil)

/-! ## The context of one evaluation -/

structure Context where
  input : RuleInput
  observedAt : ℤ
  formatter : Formatter

namespace Context

variable (c : Context)

def sales : Bool := c.input.scope.department = .sales
def department : String := if c.sales then "ОПНК" else "ОППК"
def observedCivil : ℤ := civilTime c.observedAt c.formatter
def localDayStart : ℤ := c.observedCivil / day * day
def beforeDayEnd : Bool := c.observedCivil < c.localDayStart + 19 * hour
def createdAt : Option ℤ := c.input.deal.createdAt

def stageEnteredAt : Option ℤ :=
  if c.input.sourceCompleteness.stageHistory then
    c.input.stageEnteredAt.filter fun entry => entry ≤ c.observedAt
  else none

def base : Bool :=
  !c.sales && c.input.scope.baseStageId.chosen = some c.input.deal.stageId

def stageRule : Option StageRule := JsMap.get? c.input.deal.stageId c.input.scope.stageRules
def limit : StageDeadline := stageDeadline c.stageRule c.stageEnteredAt c.formatter

/-- `limit.mode === 'unlimited' && !limit.reason`. -/
def unlimited : Bool := c.limit.mode = .unlimited && c.limit.reason.isNone

def deadlineDetails : Details :=
  [("deadlineMode", .str c.limit.mode.code), ("timeZone", .str c.input.config.timeZone),
    ("stageEnteredAt", .ofText (c.stageEnteredAt.map isoString)),
    ("maximumDueAt", .ofText (c.limit.deadline.map isoString))] ++
  ((c.stageRule.bind (·.maxDurationHours)).map fun h => ("maxDurationHours", Json.num h)).toList ++
  ((c.stageRule.bind (·.maxBusinessDays)).map fun d => ("maxBusinessDays", Json.num d)).toList

/-- The open tasks, one for each subject. -/
def activeTasks : List Task :=
  JsMap.values (JsMap.ofEntries
    ((c.input.tasks.filter fun task => !task.isCompleted).map fun task => (taskSubject task, task)))

end Context

/-- `ResultExtra`. -/
structure ResultExtra where
  subjectId : Option String := none
  details : Option Details := none
  clauses : Option (List String) := none

/-- `add(ruleCode, status, message, extra)`. -/
def ruleResult (sales : Bool) (code : RuleCode) (status : ResultStatus) (message : String)
    (extra : ResultExtra := {}) : RuleResult where
  ruleCode := code.code
  ruleName := code.name
  status := status
  message := message
  subjectId := extra.subjectId
  clauses := extra.clauses.getD (code.clauses sales)
  details := extra.details

def Context.add (c : Context) (code : RuleCode) (status : ResultStatus) (message : String)
    (extra : ResultExtra := {}) : RuleResult :=
  ruleResult c.sales code status message extra

def resolvesPrior : Details := [("resolvesPrior", .bool true)]

structure NoteState where
  notes : List Note
  invalid : Bool

/-- The notes of the current stage, and whether their dates or the stage entry are unknown. -/
def currentNotes (c : Context) (managerOnly : Bool) : NoteState :=
  let candidates := c.input.notes.filter fun note => !managerOnly || note.type = "common"
  { notes := candidates.filter fun note =>
      match c.stageEnteredAt, note.createdAt with
      | some entered, some date => entered ≤ date && date ≤ c.observedAt &&
          (!managerOnly || note.text.any fun text => trim text ≠ "")
      | _, _ => false
    invalid := c.stageEnteredAt.isNone || candidates.any fun note => note.createdAt.isNone }

def noteIds (notes : List Note) : Details := [("noteIds", .ofTexts (notes.map noteSubject))]

/-! ## The rules of the deal -/

def intakeStage (c : Context) : RuleResult :=
  let intakeStageId :=
    if c.sales then c.input.scope.assignedStageId else c.input.scope.newClientStageId
  if intakeStageId = .absent then
    c.add .intakeStage .na "Владелец указал, что начального этапа для этой проверки в воронке нет."
      { details := some [("configuredAbsent", .bool true)] }
  else match intakeStageId.chosen with
  | none => c.add .intakeStage .unknown "Не выбран начальный этап для проверки."
  | some stageId =>
    if c.input.deal.stageId ≠ stageId then
      c.add .intakeStage .na "Сделка находится на другом этапе." { details := some resolvesPrior }
    else if c.beforeDayEnd then
      c.add .intakeStage .unknown "Итог рабочего дня ещё не наступил. Этот пункт проверяется после 19:00."
        { details := some [("awaitingDayEnd", .bool true)] }
    else if !c.sales then
      c.add .intakeStage .fail "После окончания рабочего дня сделка осталась на этапе «Новый клиент»."
    else match c.createdAt.filter fun createdAt => createdAt ≤ c.observedAt with
    | none => c.add .intakeStage .unknown "Нет достоверной даты создания сделки."
    | some createdAt =>
      let beforeCutoff := civilTime createdAt c.formatter < c.localDayStart + 19 * hour
      c.add .intakeStage (if beforeCutoff then .fail else .na)
        (if beforeCutoff then "Созданная до 19:00 сделка осталась на этапе «Назначен ответственный»."
          else "Сделка создана в 19:00 или позже и не подпадает под этот пункт.")
        { details := some ([("createdAt", .str (isoString createdAt)),
            ("cutoffLocalTime", .str "19:00"), ("timeZone", .str c.input.config.timeZone)] ++
            if beforeCutoff then [] else resolvesPrior) }

def stageDuration (c : Context) : RuleResult :=
  if !c.sales && c.input.scope.priceRequestedStageId.chosen = some c.input.deal.stageId then
    c.add .stageDuration .na "Срок этого этапа учитывается в проверке «Срок запроса цены»."
      { details := some ([("delegatedTo", .str "price_requested_duration")] ++ resolvesPrior) }
  else if c.unlimited then
    c.add .stageDuration .na "Для этапа не установлен предельный срок."
      { details := some (c.deadlineDetails ++ resolvesPrior) }
  else match c.limit.deadline, c.stageEnteredAt with
  | some deadline, some entered =>
    let details := c.deadlineDetails ++
      [("elapsedHours", Json.num ((c.observedAt - entered : ℤ) / (hour : ℚ)))]
    let exceeded := if c.limit.mode = .endOfDay then deadline ≤ c.observedAt
      else deadline < c.observedAt
    if !exceeded then
      c.add .stageDuration .pass "Предельный срок нахождения сделки на этапе ещё не превышен."
        { details := some details }
    else if c.limit.mode = .endOfDay then
      c.add .stageDuration .fail "Сделка осталась на этапе в 19:00 даты входа или позже. Примечания не отменяют этот норматив."
        { details := some details }
    else
      let noteState := currentNotes c true
      if noteState.invalid || !c.input.sourceCompleteness.notes then
        c.add .stageDuration .unknown "Срок нахождения на этапе превышен, но примечания об исключениях прочитаны не полностью."
          { details := some details }
      else if noteState.notes = [] then
        c.add .stageDuration .fail "Срок нахождения на этапе превышен; актуального примечания менеджера о договорённости нет."
          { details := some details }
      else
        c.add .stageDuration .review "Срок нахождения на этапе превышен. Нужно проверить примечание и подтверждение договорённости с клиентом."
          { details := some (details ++ noteIds noteState.notes) }
  | _, _ => c.add .stageDuration .unknown (c.limit.reason.getD "") { details := some c.deadlineDetails }

def proposalNote (c : Context) : RuleResult :=
  if c.input.scope.preparedProposalStageId = .absent then
    c.add .proposalNote .na "Владелец указал, что этапа «КП подготовлено» в воронке нет."
      { details := some [("configuredAbsent", .bool true)] }
  else match c.input.scope.preparedProposalStageId.chosen with
  | none => c.add .proposalNote .unknown "Не выбран этап «КП подготовлено»."
  | some stageId =>
    if c.input.deal.stageId ≠ stageId then
      c.add .proposalNote .na "Сделка не на этапе «КП подготовлено»." { details := some resolvesPrior }
    else if c.beforeDayEnd then
      c.add .proposalNote .unknown "Итог рабочего дня ещё не наступил: презентация КП или примечание о переносе ещё могут быть оформлены сегодня."
        { details := some [("awaitingDayEnd", .bool true)] }
    else
      let noteState := currentNotes c true
      let hasManagerText := c.input.notes.any fun note =>
        note.type = "common" && note.text.any fun text => trim text ≠ ""
      if !c.input.sourceCompleteness.notes then
        c.add .proposalNote .unknown "Нельзя достоверно проверить актуальное примечание: неполные данные или неизвестно время входа в этап."
      else if !hasManagerText then
        c.add .proposalNote .fail "В сделке нет текстового примечания менеджера с причиной переноса и датой презентации."
      else if noteState.invalid then
        c.add .proposalNote .unknown "Неизвестна дата примечания или время входа в текущий этап; актуальность примечания не установлена."
      else if noteState.notes = [] then
        c.add .proposalNote .fail "После входа в «КП подготовлено» нет примечания менеджера с причиной переноса и датой презентации."
      else
        c.add .proposalNote .review "Нужно проверить причину переноса, дату презентации и связь примечания с текущим КП."
          { details := some (noteIds noteState.notes ++
              [("stageEnteredAt", .ofText (c.stageEnteredAt.map isoString))]) }

def dealAge (c : Context) : RuleResult :=
  if c.input.scope.checkDealAge = some false then
    c.add .dealAge .na "Для этой воронки ограничение возраста сделки отключено."
      { details := some resolvesPrior }
  else if c.base && c.input.config.excludeBaseFromAge then
    c.add .dealAge .na "Этап «База» исключён из ограничения возраста сделки."
      { details := some resolvesPrior }
  else match c.createdAt.filter fun createdAt => createdAt ≤ c.observedAt with
  | none => c.add .dealAge .unknown "Нет достоверной даты создания сделки."
  | some createdAt =>
    let old : Bool := match c.input.config.maxDealAge with
      | .thirtyDays => 30 * day < c.observedAt - createdAt
      | .calendarMonth => nextCalendarMonth (civilTime createdAt c.formatter) < c.observedCivil
    c.add .dealAge (if old then .fail else .pass)
      (if old then "Возраст сделки превышает установленный месяц."
        else "Возраст сделки не превышает установленный месяц.")
      { details := some [("createdAt", .str (isoString createdAt)),
          ("agePolicy", .str c.input.config.maxDealAge.code),
          ("timeZone", .str c.input.config.timeZone)] }

def offerBudget (c : Context) : RuleResult :=
  c.add .offerBudget .unknown "Ожидается автоматическое сравнение бюджета с итогом сохранённого отправленного КП."

def proposalFile (c : Context) : RuleResult :=
  c.add .proposalFile .unknown "Ожидается автоматическое сравнение файлов поля «КП» с сохранённой отправленной версией."

/-- The communications between the stage entry and the observation. -/
def currentCommunications (c : Context) (entered : ℤ) : List Communication :=
  c.input.communications.filter fun item =>
    item.createdAt.any fun date => entered ≤ date && date ≤ c.observedAt

/-- `hasConfiguredLimit`: the stage has a limit of its own. -/
def hasConfiguredLimit (c : Context) : Bool :=
  c.stageRule.any fun rule => rule.deadlineMode.isSome || rule.maxDurationHours.isSome ||
    rule.maxBusinessDays.isSome

/-- The limit of a price request: 24 hours unless the stage has one. -/
def priceLimit (c : Context) : StageDeadline :=
  if hasConfiguredLimit c then c.limit
  else stageDeadline (some { maxDurationHours := some 24 }) c.stageEnteredAt c.formatter

def priceDetails (c : Context) : Details :=
  Details.spread c.deadlineDetails
    ([("deadlineMode", .str (priceLimit c).mode.code),
      ("maximumDueAt", .ofText ((priceLimit c).deadline.map isoString))] ++
      (if hasConfiguredLimit c then [] else [("maxDurationHours", .num 24)]) ++
      [("elapsedHours", match c.stageEnteredAt with
        | some entered => .num ((c.observedAt - entered : ℤ) / (hour : ℚ))
        | none => .null)])

/-- A price request past its limit: the saved notes and communications may justify the delay. -/
def priceOverdue (c : Context) (entered : ℤ) : RuleResult :=
  let noteState := currentNotes c false
  let communications := currentCommunications c entered
  if noteState.notes ≠ [] ∨ communications ≠ [] then
    c.add .priceRequestedDuration .review "Срок запроса цены превышен. Нужно проверить, подтверждают ли приложенные записи допустимую задержку."
      { details := some (priceDetails c ++ noteIds noteState.notes ++
          [("communicationIds", .ofTexts (communications.map (·.id)))]) }
  else if !c.input.sourceCompleteness.notes || !c.input.sourceCompleteness.communications ||
      noteState.invalid || c.input.communications.any fun item => item.createdAt.isNone then
    c.add .priceRequestedDuration .unknown "Срок запроса цены превышен, но доступность всех подтверждений задержки не установлена."
      { details := some (priceDetails c) }
  else
    c.add .priceRequestedDuration .fail "Срок запроса цены превышен; подтверждения допустимой задержки не найдено."
      { details := some (priceDetails c) }

def priceRequestedDuration (c : Context) : RuleResult :=
  if c.sales then
    c.add .priceRequestedDuration .na "Пункт относится к ОППК." { details := some resolvesPrior }
  else if c.input.scope.priceRequestedStageId = .absent then
    c.add .priceRequestedDuration .na "Владелец указал, что этапа «Цена запрошена» в воронке нет."
      { details := some [("configuredAbsent", .bool true)] }
  else match c.input.scope.priceRequestedStageId.chosen with
  | none => c.add .priceRequestedDuration .unknown "Не выбран этап «Цена запрошена»."
  | some stageId =>
    if c.input.deal.stageId ≠ stageId then
      c.add .priceRequestedDuration .na "Сделка не на этапе «Цена запрошена»."
        { details := some resolvesPrior }
    else if (priceLimit c).mode = .unlimited ∧ (priceLimit c).reason = none then
      c.add .priceRequestedDuration .na "Для запроса цены явно отключён предельный срок."
        { details := some (priceDetails c ++ resolvesPrior) }
    else match (priceLimit c).deadline, c.stageEnteredAt with
    | some deadline, some entered =>
      if (priceLimit c).mode = .endOfDay then
        if c.observedAt < deadline then
          c.add .priceRequestedDuration .pass "Предельный срок запроса цены ещё не превышен."
            { details := some (priceDetails c) }
        else
          c.add .priceRequestedDuration .fail "Цена не получена к 19:00 даты входа в этап. Примечания не отменяют этот норматив."
            { details := some (priceDetails c) }
      else if c.observedAt ≤ deadline then
        c.add .priceRequestedDuration .pass "Предельный срок запроса цены ещё не превышен."
          { details := some (priceDetails c) }
      else priceOverdue c entered
    | _, _ =>
      c.add .priceRequestedDuration .unknown
        ((priceLimit c).reason.getD "Неизвестно достоверное время входа в этап «Цена запрошена».")
        { details := some (priceDetails c) }

/-! ## The rules of a task -/

def taskDetails (task : Task) : Details :=
  [("taskId", .str (taskSubject task)), ("taskText", .str (taskText task)),
    ("dueAt", .ofText (task.dueAt.map isoString))]

def taskDeadline (c : Context) (task : Task) : RuleResult :=
  let subjectId := some (taskSubject task)
  match task.dueAt with
  | none => c.add .taskDeadline .unknown "Неизвестен срок открытой задачи."
      { subjectId, details := some (taskDetails task) }
  | some dueAt =>
    let dueToday : Bool := civilTime dueAt c.formatter / day * day = c.localDayStart
    let overdue : Bool := dueAt < c.observedAt
    let details := taskDetails task ++ [("dueToday", .bool dueToday), ("overdue", .bool overdue)]
    if dueToday && !overdue && c.beforeDayEnd then
      c.add .taskDeadline .unknown "Задача назначена на сегодня, но срок ещё не истёк и итог рабочего дня не наступил."
        { subjectId, clauses := some [c.department ++ " 2"],
          details := some (details ++ [("awaitingDayEnd", .bool true)]) }
    else
      let failedClauses := (if dueToday && !c.beforeDayEnd then [c.department ++ " 2"] else []) ++
        if overdue then [c.department ++ " 3"] else []
      c.add .taskDeadline (if dueToday || overdue then .fail else .pass)
        (if dueToday && overdue then "Незавершённая задача на сегодня уже просрочена."
          else if dueToday then "Осталась незавершённая задача на сегодня."
          else if overdue then "Осталась просроченная задача."
          else "Срок задачи ещё не наступил и назначен не на сегодня.")
        { subjectId, clauses := if failedClauses = [] then none else some failedClauses,
          details := some details }

def taskType (c : Context) (task : Task) : RuleResult :=
  let subjectId := some (taskSubject task)
  let allowedTypes := (c.stageRule.bind (·.allowedTaskTypeIds)).getD []
  if c.base && allowedTypes = [] then
    c.add .taskType .na "На этапе «База» регламент не ограничивает тип задачи."
      { subjectId, details := some (taskDetails task ++ resolvesPrior) }
  else if allowedTypes = [] || allowedTypes.any fun type => !isInteger type then
    c.add .taskType .unknown "Для этапа не утверждены допустимые типы задач."
      { subjectId, details := some (taskDetails task) }
  else
    let allowed := task.typeId.any fun type => allowedTypes.contains type
    c.add .taskType (if allowed then .pass else .fail)
      (if allowed then "Тип задачи соответствует нормативу этапа."
        else "Тип задачи не входит в допустимые для этого этапа.")
      { subjectId, details := some (taskDetails task ++
          [("actualTypeId", (task.typeId.map Json.num).getD .null),
            ("allowedTypeIds", .arr (allowedTypes.map .num))]) }

def taskTextResult (c : Context) (task : Task) : RuleResult :=
  c.add .taskText (if taskText task ≠ "" then .review else .fail)
    (if taskText task ≠ "" then "Нужно проверить, описывает ли текст задачи следующий шаг по этой сделке."
      else "В открытой задаче отсутствует текст следующего действия.")
    { subjectId := some (taskSubject task), details := some (taskDetails task) }

def taskStageDeadline (c : Context) (task : Task) : RuleResult :=
  let subjectId := some (taskSubject task)
  let details := taskDetails task ++ c.deadlineDetails
  if c.unlimited then
    c.add .taskStageDeadline .na "Для этапа не установлен предельный срок."
      { subjectId, details := some (details ++ resolvesPrior) }
  else match c.limit.deadline, task.dueAt with
  | some deadline, some dueAt =>
    if dueAt ≤ deadline then
      c.add .taskStageDeadline .pass "Срок задачи не превышает норматив этапа."
        { subjectId, details := some details }
    else if c.limit.mode = .endOfDay then
      c.add .taskStageDeadline .fail "Срок задачи позже 19:00 даты входа в этап. Примечания не отменяют этот норматив."
        { subjectId, details := some details }
    else
      let noteState := currentNotes c true
      if noteState.invalid || !c.input.sourceCompleteness.notes then
        c.add .taskStageDeadline .unknown "Срок задачи превышает норматив, но примечания об исключениях прочитаны не полностью."
          { subjectId, details := some details }
      else if noteState.notes = [] then
        c.add .taskStageDeadline .fail "Срок задачи превышает норматив этапа; актуального примечания менеджера о договорённости нет."
          { subjectId, details := some details }
      else
        c.add .taskStageDeadline .review "Срок задачи превышает норматив. Нужно проверить примечание и подтверждение согласованного срока в звонке или сообщении."
          { subjectId, details := some (details ++ noteIds noteState.notes) }
  | _, _ =>
    c.add .taskStageDeadline .unknown (c.limit.reason.getD "Неизвестен срок задачи.")
      { subjectId, details := some details }

/-- The four results of one open task. -/
def taskResults (c : Context) (task : Task) : List RuleResult :=
  [taskDeadline c task, taskType c task, taskTextResult c task, taskStageDeadline c task]

def taskCount (c : Context) : RuleResult :=
  let count := c.activeTasks.length
  let countCorrect : Bool := if c.base then count ≤ 1 else count = 1
  c.add .taskCount (if countCorrect then .pass else .fail)
    (if countCorrect then
        if c.base then "На этапе «База» допустимо от нуля до одной открытой задачи."
        else "В сделке одна открытая задача."
      else "Открытых задач: " ++ toString count ++ ". " ++
        if c.base then "Допустимо не больше одной." else "Должна быть ровно одна.")
    { details := some [("activeTaskCount", .num count),
        ("taskIds", .ofTexts (c.activeTasks.map taskSubject)),
        ("allowedMinimum", .num (if c.base then 0 else 1)), ("allowedMaximum", .num 1)] }

/-- The task rules when the list of tasks is not confirmed to be complete. -/
def incompleteTasks (c : Context) : List RuleResult :=
  [RuleCode.taskDeadline, .taskCount, .taskType, .taskText, .taskStageDeadline].map fun code =>
    if code = .taskStageDeadline && c.unlimited then
      c.add code .na "Для этапа не установлен предельный срок."
        { details := some (c.deadlineDetails ++ resolvesPrior ++
            [("resolvesAllSubjects", .bool true)]) }
    else c.add code .unknown "Список задач неполный или не подтверждена его актуальность."

/-- The task rules of a deal without open tasks. -/
def noTasks (c : Context) : List RuleResult :=
  c.add .taskDeadline .pass "Незавершённых задач на сегодня или с истёкшим сроком нет." ::
    [RuleCode.taskType, .taskText, .taskStageDeadline].map fun code =>
      c.add code .na "Нет открытой задачи для проверки."

def taskSection (c : Context) : List RuleResult :=
  if !c.input.sourceCompleteness.tasks then incompleteTasks c
  else taskCount c :: (if c.activeTasks = [] then noTasks c else c.activeTasks.flatMap (taskResults c))

/-! ## The evaluation -/

def allUnknown (sales : Bool) (message : String) : List RuleResult :=
  RuleCode.all.map fun code => ruleResult sales code .unknown message

/-- Completeness flags certify both a complete source and freshness at `observedAt`. -/
def evaluateCrmControlDeal (dateTimeFormat : String → Option Formatter) (input : RuleInput) :
    List RuleResult :=
  let sales : Bool := input.scope.department = .sales
  match input.observedAt, dateTimeFormat input.config.timeZone with
  | none, _ => allUnknown sales "Неизвестно фактическое время проверки."
  | some _, none => allUnknown sales "В настройках указан неизвестный часовой пояс."
  | some observedAt, some formatter =>
    if !input.sourceCompleteness.deal then
      allUnknown sales "Нет полного актуального состояния сделки."
    else if input.scope.pipelineId ≠ input.deal.pipelineId then
      allUnknown sales "Настройки относятся к другой воронке."
    else
      let c : Context := { input, observedAt, formatter }
      intakeStage c :: taskSection c ++ [stageDuration c, proposalNote c, dealAge c, offerBudget c,
        proposalFile c, priceRequestedDuration c]

end AmoAnalytics.CrmControl
