import AmoAnalytics.Lib.Paging
import AmoAnalytics.CrmControl.Decisions

/-!
# The report of a run

`summary` and `deals` of `crm-control.service.ts`: the counts of a run for a viewer, by manager and by
rule, and the list of its observations, page by page. Both read the effective status of every result
again, because decisions are made after the run.
-/

namespace AmoAnalytics.CrmControl

/-! ## Observations as they are shown -/

/-- The results of an observation. -/
def Db.resultsOf (db : Db) (o : Observation) : List ResultRow :=
  db.results.filter fun r => r.observationId = o.id

/-- `{ status }`, the one field of a result that is counted. -/
def statusOnly (status : ResultStatus) : RuleResult where
  ruleCode := ""
  ruleName := ""
  status := status
  message := ""
  clauses := []

/-- A violation whose case still waits. -/
def unresolved (db : Db) (observedAt : ℤ) (r : ResultRow) : Bool :=
  effectiveStatus db r observedAt = .fail && (r.caseId.bind db.findCase).any fun c =>
    c.status = .opened || c.status = .review || c.status = .disputed

def effectiveCounts (db : Db) (results : List ResultRow) (observedAt : ℤ) : Counts :=
  { observationCounts (results.map fun r => statusOnly (effectiveStatus db r observedAt)) with
    unresolvedDeals := (results.any (unresolved db observedAt)).toNat }

/-- An observation with its counts, and its results with their effective status. -/
structure DealView where
  observation : Observation
  counts : Counts
  results : List (ResultRow × ResultStatus)

def publicObservation (db : Db) (o : Observation) : DealView where
  observation := o
  counts := effectiveCounts db (db.resultsOf o) o.observedAt
  results := (db.resultsOf o).map fun r => (r, effectiveStatus db r o.observedAt)

/-- The run exists and the viewer may see it; `requestedBy` is the column of the runs. -/
def visibleRun (requestedBy : String → Option String) (access : Access) (runId : String) (db : Db) : Bool :=
  (db.runs.any fun run => run.id = runId) &&
    (access.role = .owner || requestedBy runId = some access.actorId ||
      db.observations.any fun o => o.runId = runId && access.sees o)

/-! ## The summary -/

structure RuleDealCounts where
  failedDeals : ℕ := 0
  reviewDeals : ℕ := 0
  unknownDeals : ℕ := 0

def RuleDealCounts.add (a b : RuleDealCounts) : RuleDealCounts where
  failedDeals := a.failedDeals + b.failedDeals
  reviewDeals := a.reviewDeals + b.reviewDeals
  unknownDeals := a.unknownDeals + b.unknownDeals

/-- A cell of a rule: the deals of one manager in one department. -/
structure RuleCell where
  managerId : Option String
  department : Department
  counts : RuleDealCounts

structure RuleBreakdown where
  ruleCode : String
  ruleName : String
  counts : RuleDealCounts := {}
  byManager : List RuleCell := []

/-- The counts of one manager in one department. -/
structure ManagerRow where
  managerId : Option String
  managerName : Option String
  groupName : Option String
  department : Department
  counts : Counts := emptyControlCounts

structure Summary where
  counts : Counts
  managers : List ManagerRow
  ruleBreakdown : List RuleBreakdown

/-- The key of a manager in a department. -/
def managerKey (department : Department) (managerId : Option String) : String :=
  department.code ++ ":" ++ managerId.getD ""

def newManagerRow (o : Observation) : ManagerRow :=
  ⟨o.managerId, o.managerName, o.groupName, o.department, emptyControlCounts⟩

/-- The counts of an observation go to the row of its manager. -/
def addManager (db : Db) (managers : List (String × ManagerRow)) (o : Observation) :
    List (String × ManagerRow) :=
  let key := managerKey o.department o.managerId
  let manager := (JsMap.get? key managers).getD (newManagerRow o)
  JsMap.set key { manager with
    counts := addControlCounts manager.counts (effectiveCounts db (db.resultsOf o) o.observedAt) } managers

/-- The status of a result goes to those of its rule. -/
def addStatus (db : Db) (observedAt : ℤ) (rules : List (String × String × List ResultStatus))
    (r : ResultRow) : List (String × String × List ResultStatus) :=
  let item := (JsMap.get? r.ruleCode rules).getD (r.ruleName, [])
  JsMap.set r.ruleCode (item.1, item.2 ++ [effectiveStatus db r observedAt]) rules

/-- The name of each rule and the statuses of its results in an observation. -/
def statusesByRule (db : Db) (o : Observation) : List (String × String × List ResultStatus) :=
  (db.resultsOf o).foldl (addStatus db o.observedAt) []

/-- The deal counts once for each status. -/
def ruleDealCounts (statuses : List ResultStatus) : RuleDealCounts where
  failedDeals := (statuses.contains .fail).toNat
  reviewDeals := (statuses.contains .review).toNat
  unknownDeals := (statuses.contains .unknown).toNat

/-- The counts go to the cell of the manager and the department. -/
def addCell (o : Observation) (value : RuleDealCounts) : List RuleCell → List RuleCell
  | [] => [⟨o.managerId, o.department, RuleDealCounts.add {} value⟩]
  | cell :: cells =>
    if cell.managerId = o.managerId ∧ cell.department = o.department then
      { cell with counts := cell.counts.add value } :: cells
    else cell :: addCell o value cells

def addRule (o : Observation) (rules : List (String × RuleBreakdown))
    (item : String × String × List ResultStatus) : List (String × RuleBreakdown) :=
  let value := ruleDealCounts item.2.2
  let rule := (JsMap.get? item.1 rules).getD { ruleCode := item.1, ruleName := item.2.1 }
  JsMap.set item.1 { rule with
    counts := rule.counts.add value, byManager := addCell o value rule.byManager } rules

def addRules (db : Db) (rules : List (String × RuleBreakdown)) (o : Observation) :
    List (String × RuleBreakdown) :=
  (statusesByRule db o).foldl (addRule o) rules

/-- Most failed deals first, then by the name in Russian order. -/
def byFailedDeals {ρ : Type} (compareRu : String → String → ℤ) (failed : ρ → ℕ) (name : ρ → String)
    (rows : List ρ) : List ρ :=
  rows.insertionSort fun a b =>
    failed b < failed a ∨ (failed a = failed b ∧ compareRu (name a) (name b) ≤ 0)

def summary (compareRu : String → String → ℤ) (access : Access) (runId : String) (db : Db) : Summary :=
  let observations := db.observations.filter fun o => o.runId = runId && access.sees o
  { counts := observations.foldl (fun counts o => addControlCounts counts
      (effectiveCounts db (db.resultsOf o) o.observedAt)) emptyControlCounts
    managers := byFailedDeals compareRu (·.counts.failedDeals) (·.managerName.getD "null")
      (JsMap.values (observations.foldl (addManager db) []))
    ruleBreakdown := byFailedDeals compareRu (·.counts.failedDeals) (·.ruleName)
      (JsMap.values (observations.foldl (addRules db) [])) }

/-- `run`: the summary of a run that the viewer may see. -/
def Service.run (requestedBy : String → Option String) (compareRu : String → String → ℤ) (access : Access)
    (runId : String) (db : Db) : Except ServiceError Summary :=
  if visibleRun requestedBy access runId db then .ok (summary compareRu access runId db)
  else .error (.notFound "Проверка не найдена")

/-! ## The list -/

/-- The query of a list; an empty text is no choice. -/
structure DealsQuery where
  managerId : Option String := none
  department : Option String := none
  status : Option String := none
  ruleCode : Option String := none
  cursor : Option String := none

def given (value : Option String) : Option String := value.filter (· ≠ "")

def listedStatuses : List String := ["FAIL", "REVIEW", "UNKNOWN", "PASS", "NA"]

/-- The check of a query. -/
def DealsQuery.refusal (query : DealsQuery) : Option ServiceError :=
  if (given query.status).any fun s => !listedStatuses.contains s then
    some (.badRequest "Неверный статус проверки")
  else if (given query.ruleCode).any fun c => !(RuleCode.all.map RuleCode.code).contains c then
    some (.badRequest "Неверный тип проверки")
  else if (given query.department).any fun d => !(["sales", "csm"].contains d) then
    some (.badRequest "Неверный отдел")
  else none

/-- The manager and the department of the query. -/
def DealsQuery.selects (query : DealsQuery) (managerId : Option String) (department : Department) : Bool :=
  ((given query.managerId).all fun m => managerId = if m = "unassigned" then none else some m) &&
    (given query.department).all fun d => department.code = d

/-- `where`. -/
def DealsQuery.reads (query : DealsQuery) (access : Access) (runId : String) (db : Db) (o : Observation) :
    Bool :=
  o.runId = runId && access.sees o && query.selects o.managerId o.department &&
    (given query.ruleCode).all fun c => db.results.any fun r => r.observationId = o.id && r.ruleCode = c

/-- The row as it is shown answers the query. -/
def DealsQuery.accepts (query : DealsQuery) (view : DealView) : Bool :=
  let matchingResults := view.results.filter fun r => (given query.ruleCode).all (r.1.ruleCode = ·)
  ((given query.ruleCode).isNone || !matchingResults.isEmpty) &&
    match given query.status with
    | none => true
    | some status =>
      if status = "PASS" ∧ given query.ruleCode = none then
        view.counts.checkedDeals = 1 && view.counts.failedDeals = 0
      else matchingResults.any fun r => r.2.code = status

def listPageSize : ℕ := 50
def scanPageSize : ℕ := 100

/-- The inner loop: rows are collected until one more than a page is found. -/
def collect (query : DealsQuery) (db : Db) : List DealView → List Observation → List DealView
  | matching, [] => matching
  | matching, row :: rows =>
    let view := publicObservation db row
    let matching := if query.accepts view then matching ++ [view] else matching
    if listPageSize < matching.length then matching else collect query db matching rows

/-- The outer loop. Every round but the last moves the cursor, so as many rounds as there are rows and
one more are enough. -/
def scan (query : DealsQuery) (db : Db) (rows : List Observation) :
    ℕ → List DealView → Option String → List DealView
  | 0, matching, _ => matching
  | rounds + 1, matching, cursor =>
    if listPageSize < matching.length then matching
    else
      let page := Paging.page Observation.id (given cursor) scanPageSize rows
      if page = [] then matching
      else
        let matching := collect query db matching page
        if page.length < scanPageSize then matching
        else scan query db rows rounds matching (page.getLast?.map (·.id))

structure DealsPage where
  items : List DealView
  nextCursor : Option String

def Service.deals (requestedBy : String → Option String) (access : Access) (runId : String)
    (query : DealsQuery) (db : Db) : Except ServiceError DealsPage :=
  if !visibleRun requestedBy access runId db then .error (.notFound "Проверка не найдена")
  else match query.refusal with
  | some e => .error e
  | none =>
    let rows := db.observations.filter (query.reads access runId db ·)
    let matching := scan query db rows (rows.length + 1) [] query.cursor
    .ok {
      items := matching.take listPageSize
      nextCursor := if listPageSize < matching.length
        then matching[listPageSize - 1]?.map (·.observation.id) else none }

end AmoAnalytics.CrmControl
