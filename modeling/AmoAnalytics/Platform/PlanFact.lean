import AmoAnalytics.Lib.FirstOfEach
import AmoAnalytics.Lib.Regex
import AmoAnalytics.Platform.PlanFactCalendar
import AmoAnalytics.Reports.ForecastFeatures
import AmoAnalytics.Reports.RevenueForecast

/-!
# The plan and its facts

`planFact` of `platform.service.ts`: the plan set and its items of the month, the contract reports of the two teams
with the shipments counted into them, and for every manager and for the team as a whole the pace of each metric.
Numbers are exact; `nameLE` is the order of `localeCompare`, and `toLowerCase` that of a string.
-/

namespace AmoAnalytics.Platform.PlanFact

open FirstOfEach JsText Regex
open Reports.RevenueForecast (toFixed2)

/-! ## Metrics -/

inductive TeamKey
  | sales
  | csm
deriving DecidableEq

def TeamKey.text : TeamKey → String
  | .sales => "sales"
  | .csm => "csm"

inductive MetricUnit
  | number
  | money
  | percent
deriving DecidableEq

inductive MetricKind
  | additive
  | conversion
deriving DecidableEq

structure PlanFactMetric where
  key : String
  label : String
  unit : MetricUnit
  team : TeamKey
  kind : MetricKind
deriving DecidableEq

def PLAN_FACT_METRICS : List PlanFactMetric :=
  [⟨"sales_qualified_leads", "Квал лиды", .number, .sales, .additive⟩,
    ⟨"sales_conv_lead_to_kp", "Конверсия лиды -> КП", .percent, .sales, .conversion⟩,
    ⟨"sales_kp_count", "КП", .number, .sales, .additive⟩,
    ⟨"sales_conv_kp_to_invoice", "Конверсия КП -> счёт", .percent, .sales, .conversion⟩,
    ⟨"sales_invoice_count", "Счета", .number, .sales, .additive⟩,
    ⟨"sales_conv_invoice_to_paid", "Конверсия счёт -> оплата", .percent, .sales, .conversion⟩,
    ⟨"sales_paid_count", "Оплаты", .number, .sales, .additive⟩,
    ⟨"sales_paid_amount", "Сумма оплат", .money, .sales, .additive⟩,
    ⟨"sales_shipped_count", "Отгрузки", .number, .sales, .additive⟩,
    ⟨"sales_shipped_amount", "Сумма отгрузок", .money, .sales, .additive⟩,
    ⟨"csm_taken_to_work_count", "Взяты в работу", .number, .csm, .additive⟩,
    ⟨"csm_conv_work_to_kp", "Конверсия в работу -> КП", .percent, .csm, .conversion⟩,
    ⟨"csm_kp_count", "КП", .number, .csm, .additive⟩,
    ⟨"csm_conv_kp_to_invoice", "Конверсия КП -> счёт", .percent, .csm, .conversion⟩,
    ⟨"csm_invoice_count", "Счета", .number, .csm, .additive⟩,
    ⟨"csm_conv_invoice_to_paid", "Конверсия счёт -> оплата", .percent, .csm, .conversion⟩,
    ⟨"csm_paid_count", "Оплаты", .number, .csm, .additive⟩,
    ⟨"csm_paid_amount", "Сумма оплат", .money, .csm, .additive⟩,
    ⟨"csm_shipped_count", "Отгрузки", .number, .csm, .additive⟩,
    ⟨"csm_shipped_amount", "Сумма отгрузок", .money, .csm, .additive⟩]

/-- The metrics of a contract report under the keys of the plan. -/
def PLAN_FACT_REPORT_METRICS : TeamKey → List (String × String)
  | .sales =>
    [("sales_qualified_leads", "leads_received"), ("sales_kp_count", "kp_presented"),
      ("sales_conv_kp_to_invoice", "conv_kp_presented_to_invoice"), ("sales_invoice_count", "invoice_sent"),
      ("sales_conv_invoice_to_paid", "conv_invoice_to_paid"), ("sales_paid_count", "paid"),
      ("sales_paid_amount", "payment_amount")]
  | .csm =>
    [("csm_taken_to_work_count", "taken_to_work"), ("csm_conv_work_to_kp", "conv_work_to_offer"),
      ("csm_kp_count", "offer_made"), ("csm_conv_kp_to_invoice", "conv_offer_to_invoice"),
      ("csm_invoice_count", "invoice_sent"), ("csm_conv_invoice_to_paid", "conv_invoice_to_paid"),
      ("csm_paid_count", "paid"), ("csm_paid_amount", "paid_amount")]

def shippedCount (team : TeamKey) : String := team.text ++ "_shipped_count"

def shippedAmount (team : TeamKey) : String := team.text ++ "_shipped_amount"

/-! ## Rounding and names -/

def roundMetric (value : ℚ) : ℚ := toFixed2 value

def roundPlanFactValue (metric : PlanFactMetric) (value : ℚ) : ℚ :=
  if metric.unit = .number then (⌈value⌉ : ℚ) else roundMetric value

def roundPlanFactDelta (metric : PlanFactMetric) (value : ℚ) : ℚ :=
  if metric.unit = .number then (⌊value + 1 / 2⌋ : ℚ) else roundMetric value

def normalizeName (toLowerCase : JsString → JsString) (value : JsString) : JsString :=
  Reports.ForecastFeatures.trimmed
    (replaceAll (many 1 space) (js " ") (replaceAll (lit "ё") (js "е") (toLowerCase value)))

/-! ## Contract reports with shipments -/

/-- The values of the metrics by key; a metric that is absent or `null` has none. -/
abbrev Metrics := String → Option ℚ

structure ReportRow where
  groupId : Option String
  groupName : JsString
  metrics : Metrics

/-- The rows of a contract report and its summary. The rows come from a map of the groups by their ids. -/
structure Report where
  rows : List ReportRow
  summary : Metrics
  distinct : (rows.map ReportRow.groupId).Nodup

structure ShippedDeal where
  id : String
  amount : Option ℚ
  responsibleId : Option String
  responsibleName : Option JsString
  groupId : Option String

structure ShipmentEntry where
  deal : ShippedDeal
  shippedAt : ℤ

structure ActualShipping where
  entries : List ShipmentEntry
  csmGroupId : String

/-- `mapMetrics`. -/
def mapMetrics (team : TeamKey) (source : Metrics) : Metrics := fun key =>
  if key = shippedCount team ∨ key = shippedAmount team then some 0
  else if team = .sales ∧ key = "sales_conv_lead_to_kp" then
    match source "leads_received", source "kp_presented" with
    | some leads, some quotes => if 0 < leads then some (roundMetric (quotes / leads * 100)) else none
    | _, _ => none
  else ((PLAN_FACT_REPORT_METRICS team).lookup key).bind source

/-- No activity: a conversion is missing, a count is zero. -/
def emptySource (team : TeamKey) : Metrics := fun key =>
  if key ∈ (PLAN_FACT_REPORT_METRICS team).map Prod.snd then if "conv_".isPrefixOf key then none else some 0 else none

/-- One more shipment of the amount. -/
def countShipment (team : TeamKey) (amount : ℚ) (metrics : Metrics) : Metrics := fun key =>
  if key = shippedCount team then (metrics key).map (· + 1)
  else if key = shippedAmount team then (metrics key).map (· + amount)
  else metrics key

def isUnassigned (entry : ShipmentEntry) : Bool := entry.deal.responsibleId = some "unassigned-commercial"

/-- The entry is counted into the report of the team. -/
def countedIn (team : TeamKey) (csmGroupId : String) (entry : ShipmentEntry) : Bool :=
  !isUnassigned entry && decide ((team = .csm) ↔ entry.deal.groupId = some csmGroupId)

/-- A row for an owner the report has none for. -/
def shipmentRow (team : TeamKey) (deal : ShippedDeal) : ReportRow :=
  ⟨deal.responsibleId, deal.responsibleName.getD (js "Без имени"), mapMetrics team (emptySource team)⟩

/-- `rowByManager.get(...)`, with a new row for an owner without one. -/
def withRow (team : TeamKey) (deal : ShippedDeal) (rows : List ReportRow) : List ReportRow :=
  if deal.responsibleId ∈ rows.map ReportRow.groupId then rows else rows ++ [shipmentRow team deal]

theorem withRow_nodup (team : TeamKey) (deal : ShippedDeal) {rows : List ReportRow}
    (h : (rows.map ReportRow.groupId).Nodup) : ((withRow team deal rows).map ReportRow.groupId).Nodup := by
  unfold withRow
  split_ifs with hmem
  · exact h
  · rw [List.map_append, List.map_singleton]
    refine List.nodup_append.2 ⟨h, List.nodup_singleton _, ?_⟩
    rintro id hid _ hid' rfl
    have heq : id = deal.responsibleId := List.mem_singleton.1 hid'
    exact hmem (heq ▸ hid)

def countInRow (team : TeamKey) (deal : ShippedDeal) (row : ReportRow) : ReportRow :=
  if row.groupId = deal.responsibleId then
    { row with metrics := countShipment team (deal.amount.getD 0) row.metrics }
  else row

@[simp] theorem countInRow_groupId (team : TeamKey) (deal : ShippedDeal) (row : ReportRow) :
    (countInRow team deal row).groupId = row.groupId := by
  unfold countInRow
  split_ifs <;> rfl

/-- One pass of the loop over the shipments. -/
def addShipment (team : TeamKey) (csmGroupId : String) (report : Report) (entry : ShipmentEntry) : Report :=
  if countedIn team csmGroupId entry then
    { rows := (withRow team entry.deal report.rows).map (countInRow team entry.deal)
      summary := countShipment team (entry.deal.amount.getD 0) report.summary
      distinct := by
        rw [List.map_map]
        have h := withRow_nodup team entry.deal report.distinct
        rwa [show ReportRow.groupId ∘ countInRow team entry.deal = ReportRow.groupId from
          funext (countInRow_groupId team entry.deal)] }
  else report

/-- The report under the keys of the plan, without shipments. -/
def mapReport (team : TeamKey) (report : Report) : Report where
  rows := report.rows.map fun row => { row with metrics := mapMetrics team row.metrics }
  summary := mapMetrics team report.summary
  distinct := by
    rw [List.map_map]
    exact report.distinct

/-- `compute` gives the contract report of the team for its dates. -/
def computePlanFactContract (compute : TeamKey → ℤ → ℤ → Report) (team : TeamKey) (shipping : Option ActualShipping)
    (dateFrom dateTo : ℤ) : Option Report :=
  if dateTo < dateFrom then none
  else
    some (match shipping with
      | none => mapReport team (compute team dateFrom dateTo)
      | some shipping =>
        shipping.entries.foldl (addShipment team shipping.csmGroupId) (mapReport team (compute team dateFrom dateTo)))

inductive TargetType
  | company
  | group
  | manager
deriving DecidableEq

def reportMetricValue (report : Option Report) (targetId : Option String) (targetType : TargetType)
    (metricKey : String) : Option ℚ :=
  report.bind fun report =>
    let row := report.rows.find? (·.groupId = targetId)
    match targetType with
    | .manager =>
      match row with
      | none =>
        if (PLAN_FACT_METRICS.find? (·.key = metricKey)).map PlanFactMetric.kind = some .additive then some 0 else
          none
      | some row => (row.metrics metricKey).map roundMetric
    | .group => (report.summary metricKey).map roundMetric
    | .company => (row.bind fun row => row.metrics metricKey).map roundMetric

/-! ## Plans -/

/-- `PlanItem` with what the plan writes into it. -/
structure PlanItem where
  id : String
  periodType : String
  periodStart : ℤ
  periodEnd : ℤ
  targetType : TargetType
  targetId : Option String
  targetName : Option JsString
  metricKey : String
  metricName : String
  value : ℚ
  unit : MetricUnit
deriving DecidableEq

structure PlanSet where
  id : String
  name : JsString
  year : Option ℤ
  isActive : Bool
  updatedAt : ℤ
  items : List PlanItem
deriving DecidableEq

structure PlanFactPace where
  plan : Option ℚ
  upToDatePlan : Option ℚ
  factMonth : Option ℚ
  monthDelta : Option ℚ
  monthCompletionPercent : Option ℚ
  todayPlan : Option ℚ
  factToday : Option ℚ
  todayDelta : Option ℚ
  unit : MetricUnit
deriving DecidableEq

structure PlanFactRow where
  targetType : TargetType
  targetId : Option String
  targetName : JsString
  values : List (String × PlanFactPace)

structure GroupTarget where
  targetId : String
  targetName : JsString

section Plans

variable (toLowerCase : JsString → JsString)

/-- The item names the target by its id or by its normalised name. -/
def itemMatches (targetId : Option String) (targetName : JsString) (item : PlanItem) : Bool :=
  item.targetId = targetId ||
    normalizeName toLowerCase (item.targetName.getD []) = normalizeName toLowerCase targetName

/-- The item of the metric and the type of target for the target. -/
def isDirect (metric : PlanFactMetric) (targetType : TargetType) (targetId : Option String) (targetName : JsString)
    (item : PlanItem) : Bool :=
  item.metricKey = metric.key && item.targetType = targetType && itemMatches toLowerCase targetId targetName item

/-- The plans of the metric that the rows show. -/
def shownPlans (metric : PlanFactMetric) (managerRows : List PlanFactRow) : List ℚ :=
  managerRows.filterMap fun row => (row.values.lookup metric.key).bind PlanFactPace.plan

def findPlanValue (planItems : List PlanItem) (metric : PlanFactMetric) (targetType : TargetType)
    (targetId : Option String) (targetName : JsString) (managerRows : Option (List PlanFactRow))
    (groupTarget : Option GroupTarget) : Option ℚ :=
  match metric.kind, targetType, groupTarget with
  | .conversion, .manager, some groupTarget =>
    (planItems.find? (isDirect toLowerCase metric .group (some groupTarget.targetId) groupTarget.targetName)).map
      PlanItem.value
  | _, _, _ =>
    match planItems.find? (isDirect toLowerCase metric targetType targetId targetName) with
    | some direct => some direct.value
    | none =>
      if targetType = .group then
        match shownPlans metric (managerRows.getD []) with
        | [] => none
        | values => some (roundMetric values.sum)
      else none

end Plans

/-! ## The pace -/

def baseDailyPlan (plan : ℚ) (calendar : Calendar) : ℚ := plan / (max calendar.workdaysInMonth 1 : ℕ)

def upToDatePlanRaw (plan : ℚ) (calendar : Calendar) : ℚ := baseDailyPlan plan calendar * calendar.workedDays

def todayPlanRaw (plan : ℚ) (factBeforeToday : Option ℚ) (calendar : Calendar) : Option ℚ :=
  if calendar.isCurrentMonth && calendar.isTodayWorkday then
    some (max (baseDailyPlan plan calendar)
      ((plan - factBeforeToday.getD 0) / (max calendar.remainingWorkdaysIncludingToday 1 : ℕ)))
  else none

/-- A share in percent; over zero the answer has no number. -/
def percentOf (fact plan : ℚ) : Option ℚ := if plan = 0 then none else some (roundMetric (fact / plan * 100))

def planFactPace (metric : PlanFactMetric) (plan factMonth factToday factBeforeToday : Option ℚ)
    (calendar : Calendar) : PlanFactPace :=
  match plan.filter (· ≠ 0) with
  | none => ⟨none, none, factMonth, none, none, none, factToday, none, metric.unit⟩
  | some plan =>
    if metric.kind = .conversion then
      let sharedPlan := roundPlanFactValue metric plan
      { plan := some sharedPlan
        upToDatePlan := some sharedPlan
        factMonth
        monthDelta := factMonth.map fun fact => roundPlanFactDelta metric (fact - sharedPlan)
        monthCompletionPercent := factMonth.bind fun fact => percentOf fact sharedPlan
        todayPlan := if calendar.isCurrentMonth then some sharedPlan else none
        factToday
        todayDelta :=
          if calendar.isCurrentMonth then factToday.map fun fact => roundPlanFactDelta metric (fact - sharedPlan)
          else none
        unit := metric.unit }
    else
      let upToDatePlan := roundPlanFactValue metric (upToDatePlanRaw plan calendar)
      let todayPlan := (todayPlanRaw plan factBeforeToday calendar).map (roundPlanFactValue metric)
      { plan := some (roundPlanFactValue metric plan)
        upToDatePlan := some upToDatePlan
        factMonth
        monthDelta := factMonth.map fun fact => roundPlanFactDelta metric (fact - upToDatePlan)
        monthCompletionPercent := factMonth.bind fun fact => if 0 < upToDatePlan then percentOf fact upToDatePlan
          else none
        todayPlan
        factToday
        todayDelta := todayPlan.bind fun plan => factToday.map fun fact => roundPlanFactDelta metric (fact - plan)
        unit := metric.unit }

/-! ## Teams -/

/-- The reports of a team for the month, for the current day and for the days before it. -/
structure TeamReports where
  month : Option Report
  today : Option Report
  beforeToday : Option Report

structure Facts where
  month : Option ℚ
  today : Option ℚ
  beforeToday : Option ℚ

/-- The facts of a target that its pace is built from. -/
def targetFacts (reports : TeamReports) (targetId : Option String) (targetType : TargetType) (key : String) : Facts :=
  let factMonth := reportMetricValue reports.month targetId targetType key
  let factToday := reports.today.bind fun report => reportMetricValue (some report) targetId targetType key
  { month := factMonth
    today := factToday
    beforeToday :=
      match reports.beforeToday with
      | some report => reportMetricValue (some report) targetId targetType key
      | none => some (max (factMonth.getD 0 - factToday.getD 0) 0) }

structure Manager where
  id : Option String
  name : JsString

/-- What the plan and its facts are read from. -/
structure Sources where
  planSets : List PlanSet
  /-- The ids of the groups of the teams that have a funnel definition. -/
  refs : TeamKey → Option String
  managers : TeamKey → List Manager
  compute : TeamKey → ℤ → ℤ → Report
  shipping : ℤ → ℤ → ActualShipping

structure Shipping where
  month : Option ActualShipping
  today : Option ActualShipping
  beforeToday : Option ActualShipping

structure PlanFactTeam where
  key : TeamKey
  name : JsString
  groupId : String
  rows : List PlanFactRow
  total : PlanFactRow

structure UnassignedShipping where
  count : ℕ
  amount : ℚ

structure PlanFactResult where
  planSetId : Option String
  month : String
  calendar : Calendar
  teams : List PlanFactTeam
  unassignedShipping : UnassignedShipping

def teamName : TeamKey → JsString
  | .sales => js "Продажи"
  | .csm => js "CSM"

/-- `calendar.todayEnd < calendar.monthEnd ? calendar.todayEnd : calendar.monthEnd`. -/
def periodEnd (calendar : Calendar) : ℤ :=
  if calendar.todayEnd < calendar.monthEnd then calendar.todayEnd else calendar.monthEnd

def teamReports (compute : TeamKey → ℤ → ℤ → Report) (team : TeamKey) (shipping : Shipping) (calendar : Calendar) :
    TeamReports where
  month := computePlanFactContract compute team shipping.month calendar.monthStart (periodEnd calendar)
  today :=
    if calendar.isCurrentMonth then
      computePlanFactContract compute team shipping.today calendar.todayStart calendar.todayEnd
    else none
  beforeToday :=
    if calendar.isCurrentMonth then
      computePlanFactContract compute team shipping.beforeToday calendar.monthStart (calendar.todayStart - 1)
    else none

/-- The owners of the rows of a report. -/
def owners (report : Option Report) : List Manager :=
  match report with
  | none => []
  | some report => report.rows.map fun row => ⟨row.groupId, row.groupName⟩

/-- The managers of the team, then the owners in its reports that are not among them. -/
def allManagers (managers : List Manager) (reports : TeamReports) : List Manager :=
  firstOfEach Manager.id (managers ++ owners reports.month ++ owners reports.today ++ owners reports.beforeToday)

/-- The shipments of the month, those of the current day and those before it. -/
def splitShipping (calendar : Calendar) (month : Option ActualShipping) : Shipping where
  month
  today :=
    if calendar.isCurrentMonth then
      month.map fun shipping =>
        { shipping with entries := shipping.entries.filter fun entry => calendar.todayStart ≤ entry.shippedAt }
    else none
  beforeToday :=
    if calendar.isCurrentMonth then
      month.map fun shipping =>
        { shipping with entries := shipping.entries.filter fun entry => entry.shippedAt < calendar.todayStart }
    else none

def monthShipping (shipping : ℤ → ℤ → ActualShipping) (calendar : Calendar) : Option ActualShipping :=
  if periodEnd calendar < calendar.monthStart then none else some (shipping calendar.monthStart (periodEnd calendar))

def unassignedShipping (shipping : Option ActualShipping) : UnassignedShipping :=
  let entries := (shipping.map ActualShipping.entries).getD []
  ⟨(entries.filter isUnassigned).length, ((entries.filter isUnassigned).map fun entry => entry.deal.amount.getD
    0).sum⟩

/-- The items that overlap the month. -/
def monthItems (calendar : Calendar) (planSet : Option PlanSet) : List PlanItem :=
  ((planSet.map PlanSet.items).getD []).filter fun item =>
    item.periodStart ≤ calendar.monthEnd && calendar.monthStart ≤ item.periodEnd

/-- The active plan set of those that was updated last. -/
def latestActive (planSets : List PlanSet) : Option PlanSet :=
  (planSets.filter (·.isActive)).foldl (fun last planSet =>
    match last with
    | none => some planSet
    | some previous => if previous.updatedAt < planSet.updatedAt then some planSet else some previous) none

/-- The plan set to read: the one with the id, or the latest active one. -/
def chosenPlanSet (planSets : List PlanSet) (planSetId : Option String) : Option PlanSet :=
  match planSetId.filter (· ≠ "") with
  | some id => planSets.find? (·.id = id)
  | none => latestActive planSets

section Teams

variable (toLowerCase : JsString → JsString) (nameLE : JsString → JsString → Prop) [DecidableRel nameLE]

def buildPlanFactTargetRow (targetType : TargetType) (targetId : Option String) (targetName : JsString)
    (groupTarget : GroupTarget) (metrics : List PlanFactMetric) (planItems : List PlanItem) (calendar : Calendar)
    (reports : TeamReports) (managerRows : Option (List PlanFactRow)) : PlanFactRow where
  targetType
  targetId
  targetName
  values := metrics.map fun metric =>
    let plan := findPlanValue toLowerCase planItems metric targetType targetId targetName managerRows
      (some groupTarget)
    let facts := targetFacts reports targetId targetType metric.key
    (metric.key, planFactPace metric plan facts.month facts.today facts.beforeToday calendar)

def buildPlanFactTeam (sources : Sources) (team : TeamKey) (groupId : String) (shipping : Shipping)
    (planItems : List PlanItem) (calendar : Calendar) : PlanFactTeam :=
  let metrics := PLAN_FACT_METRICS.filter (·.team = team)
  let reports := teamReports sources.compute team shipping calendar
  let groupTarget : GroupTarget := ⟨groupId, teamName team⟩
  let managers := (allManagers (sources.managers team) reports).insertionSort fun a b => nameLE a.name b.name
  let rows := managers.map fun manager => buildPlanFactTargetRow toLowerCase .manager manager.id manager.name
    groupTarget metrics planItems calendar reports none
  { key := team
    name := teamName team
    groupId
    rows
    total := buildPlanFactTargetRow toLowerCase .group (some groupId)
      (js "Итого " ++ teamName team) groupTarget metrics
      planItems calendar reports (some rows) }

/-- `planFact` for the calendar of its month. -/
def planFactOf (sources : Sources) (planSetId : Option String) (calendar : Calendar) : PlanFactResult :=
  let planSet := chosenPlanSet sources.planSets planSetId
  let month := monthShipping sources.shipping calendar
  let shipping := splitShipping calendar month
  let items := monthItems calendar planSet
  { planSetId := planSet.map PlanSet.id
    month := calendar.monthKey
    calendar
    teams := [TeamKey.sales, .csm].filterMap fun team => (sources.refs team).map fun groupId =>
      buildPlanFactTeam toLowerCase nameLE sources team groupId shipping items calendar
    unassignedShipping := unassignedShipping month }

def planFact (offset : ℤ → ℤ) (now : ℤ) (sources : Sources) (planSetId monthInput : Option String) (fuel : ℕ) :
    Option PlanFactResult :=
  (planFactCalendar offset (parsePlanFactMonth offset now monthInput) now fuel).map
    (planFactOf toLowerCase nameLE sources planSetId)

end Teams

end AmoAnalytics.Platform.PlanFact
