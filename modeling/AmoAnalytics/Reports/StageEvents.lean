import AmoAnalytics.Reports.ContractBuckets
import AmoAnalytics.Reports.ReportPeriod

/-!
# The events of a stage metric

A metric over stage events reads the changes into its stages and, for the time before a cut-off, those into the stages
it had then. Both come from `CrmEvent`, so what a change is counted as depends on the change alone; the period only
says which are read (`mem_findStageEventDeals`).
-/

namespace AmoAnalytics.Reports.Contract

open DateText

/-! ## Tables -/

/-- `CrmEvent`; the user and the stages are columns read from its JSON. -/
structure CrmEvent where
  id : String
  type_ : String
  dealId : Option String
  createdAt : ℤ
  createdBy : Option String
  beforeStatusId : Option String
  beforePipelineId : Option String
  afterStatusId : Option String
  afterPipelineId : Option String

structure CrmUser where
  id : String
  externalId : String
  groupId : Option String
  isActive : Bool
  isVisible : Bool

structure PipelineStage where
  id : String
  externalId : String
  pipelineExternalId : String
deriving DecidableEq

/-- `fact_deal_current`. -/
structure FactDeal (δ : Type*) where
  dealId : String
  pipelineId : String
  responsibleId : Option String
  groupId : Option String
  deletedAt : Option ℤ
  columns : δ

structure Database (δ : Type*) where
  events : List CrmEvent
  users : List CrmUser
  stages : List PipelineStage
  deals : List (FactDeal δ)
  eventKeys : (events.map CrmEvent.id).Nodup
  userKeys : (users.map CrmUser.externalId).Nodup
  dealKeys : (deals.map FactDeal.dealId).Nodup

/-! ## Filters and metrics -/

inductive UserRole
  | admin
  | rop
deriving DecidableEq

structure WorkspaceScope where
  ownManagerId : Option String
  pipelineIds : List String

/-- An empty list of managers or groups is none given. -/
structure EventFilters (δ : Type*) where
  period : ReportFilters
  managerIds : List String
  groupIds : List String
  workspace : Option WorkspaceScope
  /-- The conditions on the loss reason, the amount, the tags and the custom fields. -/
  dealConditions : FactDeal δ → Bool

/-- A metric of the type `stage_reached` over events. -/
structure EventMetric (δ : Type*) extends BucketMetric δ where
  stageIds : List String
  fromStageId : Option String
  legacyStageIds : List String
  legacyStageBefore : Option String
  /-- The mode `amo_event`, otherwise `event`. -/
  amoEvent : Bool
  includeSystemStageEvents : Bool
  excludeGroupIds : List String
  /-- The other filters of the metric. -/
  extraFilters : ReportDeal δ → Bool

structure EventOptions where
  amoEvent : Bool
  includeSystem : Bool

variable {δ : Type*}

def EventMetric.eventOptions (metric : EventMetric δ) : EventOptions :=
  { amoEvent := metric.amoEvent, includeSystem := metric.includeSystemStageEvents }

/-! ## `findStageEventDeals` -/

section Functions

variable (other : String → Option ℤ) (db : Database δ) (role : UserRole)

/-- A workspace puts its own manager in the place of the managers and groups asked for. -/
def workspaceFilters (filters : EventFilters δ) : EventFilters δ :=
  match filters.workspace with
  | some scope => { filters with groupIds := [], managerIds := scope.ownManagerId.toList }
  | none => filters

def visibleManagerIds (groupIds : List String) (includeInactive : Bool) : List String :=
  (db.users.filter fun user => (includeInactive || user.isActive) && (role ≠ .rop || user.isVisible) &&
    (groupIds = [] || user.groupId.any (· ∈ groupIds))).map CrmUser.id

def allowedManagerIds (filters : EventFilters δ) (options : EventOptions) : List String :=
  let managerIds := visibleManagerIds db role filters.groupIds options.amoEvent
  if filters.managerIds ≠ [] then filters.managerIds.filter (· ∈ managerIds) else managerIds

def includeUnknownActors (filters : EventFilters δ) (options : EventOptions) : Bool :=
  options.amoEvent && filters.managerIds = [] && filters.groupIds = []

def eventManager (event : CrmEvent) : Option CrmUser :=
  event.createdBy.bind fun user => db.users.find? fun manager => manager.externalId = user

def actorId (options : EventOptions) (event : CrmEvent) (deal : FactDeal δ) : Option String :=
  let manager := (eventManager db event).map CrmUser.id
  if options.amoEvent then
    some (manager.getD (if event.createdBy = some "0" then "amo-automation"
      else "amo-user:" ++ event.createdBy.getD "unknown"))
  else manager <|> deal.responsibleId

def actorGroupId (options : EventOptions) (event : CrmEvent) (deal : FactDeal δ) : Option String :=
  let group := (eventManager db event).bind CrmUser.groupId
  if options.amoEvent then group else group <|> deal.groupId

def targetStages (stageIds : List String) : List PipelineStage := db.stages.filter fun stage => stage.id ∈ stageIds

/-- The conditions on a row but the period's. -/
def rowConditions (stages : List PipelineStage) (source : Option PipelineStage) (filters : EventFilters δ)
    (options : EventOptions) (event : CrmEvent) (deal : FactDeal δ) : Bool :=
  event.type_ = "lead_status_changed" &&
  ((actorId db options event deal).any (· ∈ allowedManagerIds db role filters options) ||
    includeUnknownActors filters options && (eventManager db event).isNone) &&
  (stages.any fun stage =>
    event.afterStatusId = some stage.externalId && event.afterPipelineId = some stage.pipelineExternalId) &&
  (options.amoEvent || deal.deletedAt.isNone) &&
  (!options.amoEvent || options.includeSystem || event.createdBy.any (· ≠ "0")) &&
  filters.dealConditions deal &&
  source.all fun stage =>
    event.beforeStatusId = some stage.externalId && event.beforePipelineId = some stage.pipelineExternalId

/-- Between the bounds; an invalid one takes no row. -/
def inPeriod (range : DateRange) (t : ℤ) : Bool :=
  (range.gte.all fun bound => bound.any (· ≤ t)) && range.lte.all fun bound => bound.any (t ≤ ·)

structure Occurrence where
  occurrenceId : String
  dealId : String
  occurredAt : ℤ
  responsibleId : Option String
  groupId : Option String

/-- The fact row an event is joined with. -/
def factOf (event : CrmEvent) : Option (FactDeal δ) :=
  event.dealId.bind fun dealId => db.deals.find? fun deal => deal.dealId = dealId

def occurrenceOf (options : EventOptions) (event : CrmEvent) (deal : FactDeal δ) : Occurrence where
  occurrenceId := event.id
  dealId := deal.dealId
  occurredAt := event.createdAt
  responsibleId := actorId db options event deal
  groupId := actorGroupId db options event deal

/-- `ORDER BY createdAt, id`. -/
def byTime (a b : Occurrence) : Prop := toLex (a.occurredAt, a.occurrenceId) ≤ toLex (b.occurredAt, b.occurrenceId)

instance : DecidableRel byTime := fun _ _ => inferInstanceAs (Decidable (_ ≤ _))

def findDealsByIds (dealIds : List String) (includeDeleted : Bool) : List (FactDeal δ) :=
  db.deals.filter fun deal => deal.dealId ∈ dealIds && (includeDeleted || deal.deletedAt.isNone)

/-- A deal with who did what its event records. -/
def eventDeal (filters : EventFilters δ) (occurrence : Occurrence) (deal : FactDeal δ) : ReportDeal δ where
  id := deal.dealId
  pipelineId := deal.pipelineId
  redacted := filters.workspace.any fun scope =>
    deal.pipelineId ∉ scope.pipelineIds || scope.ownManagerId.any fun own => deal.responsibleId ≠ some own
  responsibleId := occurrence.responsibleId <|> deal.responsibleId
  responsible :=
    match occurrence.responsibleId with
    | some id => some { id := some id, groupId := occurrence.groupId }
    | none =>
      if deal.responsibleId.isSome ∨ deal.groupId.isSome then
        some { id := deal.responsibleId, groupId := deal.groupId }
      else none
  occurrenceId := some occurrence.occurrenceId
  occurredAt := some occurrence.occurredAt
  expectedAmount := none
  columns := deal.columns

/-- The stage a change has to come from: none asked for, or the row of the one asked for, if there is one. -/
def sourceStage (fromStageId : Option String) : Option (Option PipelineStage) :=
  match given fromStageId with
  | some id => (db.stages.find? fun stage => stage.id = id).map some
  | none => some none

/-- The rows of the event query. -/
def stageOccurrences (stages : List PipelineStage) (source : Option PipelineStage) (filters : EventFilters δ)
    (options : EventOptions) : List Occurrence :=
  let range := dateRange other filters.period
  (db.events.filterMap fun event =>
    ((factOf db event).filter fun deal =>
      rowConditions db role stages source filters options event deal && inPeriod range event.createdAt).map
      (occurrenceOf db options event)).insertionSort byTime

def findStageEventDeals (stageIds : List String) (filters : EventFilters δ) (fromStageId : Option String)
    (options : EventOptions) : List (ReportDeal δ) :=
  let filters := workspaceFilters filters
  let stages := targetStages db stageIds
  if stages = [] then []
  else if allowedManagerIds db role filters options = [] ∧ includeUnknownActors filters options = false then []
  else
    match sourceStage db fromStageId with
    | none => []
    | some source =>
      let occurrences := stageOccurrences other db role stages source filters options
      let deals := findDealsByIds db (occurrences.map Occurrence.dealId) options.amoEvent
      occurrences.filterMap fun occurrence =>
        (deals.find? fun deal => deal.dealId = occurrence.dealId).map (eventDeal filters occurrence)

/-! ## `findDealsForContractMetric` -/

def legacyStageFilters (metric : EventMetric δ) (filters : EventFilters δ) :
    Except String (Option (EventFilters δ)) :=
  match given metric.legacyStageBefore with
  | none => .ok none
  | some before =>
    if metric.legacyStageIds = [] then .ok none
    else
      match newDate other before with
      | none => .ok none
      | some cutoff =>
        let range := dateRange other filters.period
        if (range.gte.bind id).any (cutoff ≤ ·) then .ok none
        else
          let legacyTo := timeClip (cutoff - 1)
          let effectiveTo :=
            match range.lte.bind id, legacyTo with
            | some lte, some legacyTo => if lte < legacyTo then some lte else some legacyTo
            | _, _ => legacyTo
          (toISOString effectiveTo).map fun dateTo =>
            some { filters with period := { filters.period with dateTo := some dateTo } }

/-- A deal the filters of the metric take. -/
def metricTakes (metric : EventMetric δ) (deal : ReportDeal δ) : Bool :=
  ((deal.responsible.bind Responsible.groupId).all (· ∉ metric.excludeGroupIds)) && metric.extraFilters deal

def applyMetricDealFilters (metric : EventMetric δ) (deals : List (ReportDeal δ)) : List (ReportDeal δ) :=
  deals.filter (metricTakes metric)

def findDealsForContractMetric (metric : EventMetric δ) (filters : EventFilters δ) :
    Except String (List (ReportDeal δ)) := do
  let stageIds := metric.stageIds.filter (· ≠ "")
  if stageIds = [] then return []
  let deals := findStageEventDeals other db role stageIds filters metric.fromStageId metric.eventOptions
  match ← legacyStageFilters other metric filters with
  | some legacyFilters =>
    return applyMetricDealFilters metric (deals ++
      findStageEventDeals other db role metric.legacyStageIds legacyFilters metric.fromStageId metric.eventOptions)
  | none => return applyMetricDealFilters metric deals

end Functions

/-! ## What is read -/

section Reading

variable {other : String → Option ℤ} {db : Database δ} {role : UserRole} {filters : EventFilters δ}
  {stageIds : List String} {fromStageId : Option String} {options : EventOptions}

/-- What a change into one of the stages is reported as, whenever it was. -/
def entry (db : Database δ) (role : UserRole) (stageIds : List String) (filters : EventFilters δ)
    (fromStageId : Option String) (options : EventOptions) (event : CrmEvent) : Option (ReportDeal δ) :=
  (sourceStage db fromStageId).bind fun source =>
    ((factOf db event).filter fun deal =>
      rowConditions db role (targetStages db stageIds) source (workspaceFilters filters) options event deal).map
      fun deal => eventDeal (workspaceFilters filters) (occurrenceOf db options event deal) deal

theorem rowConditions_false {stages : List PipelineStage} {source : Option PipelineStage} (event : CrmEvent)
    (deal : FactDeal δ) (h : stages = [] ∨ allowedManagerIds db role filters options = [] ∧
      includeUnknownActors filters options = false) :
    rowConditions db role stages source filters options event deal = false := by
  unfold rowConditions
  rcases h with rfl | ⟨hnone, hknown⟩
  · simp
  · simp [hnone, hknown]

/-- The fact row of an occurrence is read again with the deals. -/
theorem find?_findDealsByIds {event : CrmEvent} {deal : FactDeal δ} {dealIds : List String}
    (hdeal : factOf db event = some deal) (hmem : deal.dealId ∈ dealIds)
    (hdeleted : (options.amoEvent || deal.deletedAt.isNone) = true) :
    (findDealsByIds db dealIds options.amoEvent).find? (fun row => row.dealId = deal.dealId) = some deal := by
  obtain ⟨dealId, -, hfind⟩ := Option.bind_eq_some_iff.1 hdeal
  have hkey := List.find?_some hfind
  obtain rfl : deal.dealId = dealId := of_decide_eq_true hkey
  unfold findDealsByIds
  rw [List.find?_filter, ← hfind]
  refine List.find?_congr fun row hrow => ?_
  by_cases hid : row.dealId = deal.dealId
  · obtain rfl := List.inj_on_of_nodup_map db.dealKeys hrow (List.mem_of_find?_eq_some hfind) hid
    simp [hmem, hdeleted]
  · simp [hid]

theorem mem_stageOccurrences {stages : List PipelineStage} {source : Option PipelineStage}
    {occurrence : Occurrence} : occurrence ∈ stageOccurrences other db role stages source filters options ↔
      ∃ event ∈ db.events, ∃ deal, factOf db event = some deal ∧
        rowConditions db role stages source filters options event deal = true ∧
        inPeriod (dateRange other filters.period) event.createdAt = true ∧
          occurrenceOf db options event deal = occurrence := by
  unfold stageOccurrences
  dsimp only
  rw [List.mem_insertionSort, List.mem_filterMap]
  simp only [Option.map_eq_some_iff, Option.filter_eq_some_iff, Bool.and_eq_true, and_assoc]

theorem rowConditions_deleted {stages : List PipelineStage} {source : Option PipelineStage} {event : CrmEvent}
    {deal : FactDeal δ} (h : rowConditions db role stages source filters options event deal = true) :
    (options.amoEvent || deal.deletedAt.isNone) = true := by
  simp only [rowConditions, Bool.and_eq_true] at h
  exact h.1.1.1.2

theorem entry_eq_some {event : CrmEvent} {deal : ReportDeal δ} :
    entry db role stageIds filters fromStageId options event = some deal ↔
      ∃ source row, sourceStage db fromStageId = some source ∧ factOf db event = some row ∧
        rowConditions db role (targetStages db stageIds) source (workspaceFilters filters) options event row = true ∧
        eventDeal (workspaceFilters filters) (occurrenceOf db options event row) row = deal := by
  unfold entry
  rw [Option.bind_eq_some_iff]
  simp only [Option.map_eq_some_iff, Option.filter_eq_some_iff, and_assoc, exists_and_left]

/-- The events of the period are read, each as its entry. -/
theorem mem_findStageEventDeals {deal : ReportDeal δ} :
    deal ∈ findStageEventDeals other db role stageIds filters fromStageId options ↔
      ∃ event ∈ db.events, inPeriod (dateRange other filters.period) event.createdAt = true ∧
        entry db role stageIds filters fromStageId options event = some deal := by
  have hperiod : (workspaceFilters filters).period = filters.period := by
    unfold workspaceFilters
    split <;> rfl
  simp only [entry_eq_some]
  unfold findStageEventDeals
  dsimp only
  by_cases hempty : targetStages db stageIds = [] ∨ allowedManagerIds db role
    (workspaceFilters filters) options = [] ∧
      includeUnknownActors (workspaceFilters filters) options = false
  · -- without stages or actors no row meets the conditions
    constructor
    · intro h
      rcases hempty with h₁ | h₂
      · rw [if_pos h₁] at h
        cases h
      · rw [if_pos h₂, ite_self] at h
        cases h
    · rintro ⟨event, -, -, source, row, -, -, hcond, -⟩
      rw [rowConditions_false event row hempty] at hcond
      cases hcond
  · obtain ⟨hstages, hactors⟩ := not_or.1 hempty
    rw [if_neg hstages, if_neg hactors]
    cases hsource : sourceStage db fromStageId with
    | none =>
      refine ⟨fun h => absurd h List.not_mem_nil, ?_⟩
      rintro ⟨event, -, -, source, row, hsome, -⟩
      cases hsome
    | some source =>
      dsimp only
      simp only [List.mem_filterMap, mem_stageOccurrences, hperiod]
      constructor
      · rintro ⟨occurrence, ⟨event, hevent, row, hfact, hcond, hrange, rfl⟩, hfound⟩
        refine ⟨event, hevent, hrange, source, row, rfl, hfact, hcond, ?_⟩
        have hmem : row.dealId ∈ (stageOccurrences other db role (targetStages db stageIds) source
            (workspaceFilters filters) options).map Occurrence.dealId :=
          List.mem_map.2 ⟨occurrenceOf db options event row,
            mem_stageOccurrences.2 ⟨event, hevent, row, hfact, hcond, hperiod ▸ hrange, rfl⟩, rfl⟩
        have hread := find?_findDealsByIds hfact hmem (rowConditions_deleted hcond)
        rw [show (occurrenceOf db options event row).dealId = row.dealId from rfl, hread] at hfound
        exact Option.some.inj hfound
      · rintro ⟨event, hevent, hrange, source', row, hsame, hfact, hcond, rfl⟩
        obtain rfl := Option.some.inj hsame
        have hmem : row.dealId ∈ (stageOccurrences other db role (targetStages db stageIds) source
            (workspaceFilters filters) options).map Occurrence.dealId :=
          List.mem_map.2 ⟨occurrenceOf db options event row,
            mem_stageOccurrences.2 ⟨event, hevent, row, hfact, hcond, hperiod ▸ hrange, rfl⟩, rfl⟩
        refine ⟨occurrenceOf db options event row, ⟨event, hevent, row, hfact, hcond, hrange, rfl⟩, ?_⟩
        rw [show (occurrenceOf db options event row).dealId = row.dealId from rfl,
          find?_findDealsByIds hfact hmem (rowConditions_deleted hcond), Option.map_some]

end Reading

end AmoAnalytics.Reports.Contract
