import AmoAnalytics.Workspaces.PerformancePeriod

/-!
# The performance page

`PerformanceService.calculate` reads the stage events of the month, credits them in their order and counts those of the
asked period, for every manager and for the total. Where a deal is credited once, the keys of earlier months and of
earlier events of the month are passed over.
-/

namespace AmoAnalytics.Workspaces.Performance

open CivilDate Shipments

/-! ## Tables -/

inductive ActivityMetric
  | proposals
  | invoices
  | paid
deriving DecidableEq

/-- `CrmEvent`; the user and the stage entered are columns read from its JSON. -/
structure CrmEvent where
  externalId : String
  type_ : String
  dealId : Option String
  createdAt : ℤ
  createdBy : Option String
  statusId : Option String
  pipelineId : Option String

structure CrmUser where
  id : String
  externalId : String
  groupId : Option String

/-- A Rivile document of the department within the period, with the manager its code is linked to. -/
structure FinanceDocument where
  managerId : Option String
  margin : ℚ
  /-- Whole cents. -/
  cents : ∃ n : ℤ, margin = n / 100

/-- What `rivile.read` gives: the cutoff of its source is there or not. -/
structure Finance where
  hasCutoff : Bool
  documents : List FinanceDocument
  links : List (Option String)
  /-- A document's manager is the one of a link of the department. -/
  linked : ∀ document ∈ documents, document.managerId ∈ links

structure Database where
  shipping : Tables
  events : List CrmEvent
  users : List CrmUser
  /-- The external ids of a stage and of its pipeline. -/
  stageKeys : String → Option (String × String)
  finance : Option Finance
  eventKeys : (events.map CrmEvent.externalId).Nodup
  userKeys : (users.map CrmUser.id).Nodup
  /-- The managers of shipment links are users; no user is ever deleted. -/
  linkManagers : ∀ link ∈ shipping.links, ∀ managerId, link.managerId = some managerId →
    managerId ∈ users.map CrmUser.id
  /-- So are those of the Rivile links. -/
  financeManagers : ∀ source, finance = some source → ∀ managerId, some managerId ∈ source.links →
    managerId ∈ users.map CrmUser.id

structure Department where
  key : String
  groupId : String
  refs : ShippingRefs
  /-- The stages of each metric, from the funnel definition. -/
  rules : List (ActivityMetric × String)

inductive CompetitionMode
  | uniqueDeal
  | amoEvents
deriving DecidableEq

/-- Whose numbers are asked for: `ids` from the access rules, and whether the view is over all managers. -/
structure View where
  ids : List String
  allManagers : Bool

/-! ## `performance.service.ts` -/

structure Activity where
  metric : ActivityMetric
  dealId : String
  actorId : Option String
  occurredAt : ℤ
  eventId : String
  system : Bool
deriving DecidableEq

section Functions

variable (db : Database) (department : Department)

/-- The joins of both event queries: a change into the stage of the rule. -/
def entersStage (rule : ActivityMetric × String) (event : CrmEvent) : Bool :=
  event.type_ = "lead_status_changed" &&
    match db.stageKeys rule.2 with
    | some (stage, pipeline) => event.statusId = some stage && event.pipelineId = some pipeline
    | none => false

/-- Done by somebody else than the automation; a missing user is neither, as in SQL. -/
def CrmEvent.byHuman (event : CrmEvent) : Bool := event.createdBy.any (· ≠ "0")

/-- A row of the activity query. -/
def activityOf (month : Period) (event : CrmEvent) (rule : ActivityMetric × String) : Option Activity :=
  match event.dealId with
  | none => none
  | some dealId =>
    if dealId ∈ db.shipping.deals.map FactDeal.dealId ∧ entersStage db rule event ∧
        (rule.1 ≠ .paid ∨ department.key ≠ "sales" ∨ event.byHuman) ∧ month.has event.createdAt then
      some { metric := rule.1, dealId
             actorId := event.createdBy.bind fun user => (db.users.find? fun u => u.externalId = user).map CrmUser.id
             occurredAt := event.createdAt, eventId := event.externalId, system := event.createdBy = some "0" }
    else none

/-- `ORDER BY createdAt, externalId`. -/
def byTime (a b : Activity) : Prop := toLex (a.occurredAt, a.eventId) ≤ toLex (b.occurredAt, b.eventId)

instance : DecidableRel byTime := fun _ _ => inferInstanceAs (Decidable (_ ≤ _))

def activities (month : Period) : List Activity :=
  (db.events.flatMap fun event => department.rules.filterMap (activityOf db department month event)).insertionSort byTime

/-- A metric for which a deal is credited once. -/
def isUnique (mode : Option CompetitionMode) (metric : ActivityMetric) : Bool :=
  mode = some .uniqueDeal || (department.key = "sales" && metric = .paid)

/-- The deals of the month's activities with an event before the month. -/
def previous (mode : Option CompetitionMode) (month : Period) : List (ActivityMetric × String) :=
  let rows := activities db department month
  if (mode = some .uniqueDeal ∨ department.key = "sales") ∧ rows ≠ [] then
    db.events.flatMap fun event => department.rules.filterMap fun rule =>
      match event.dealId with
      | none => none
      | some dealId =>
        if entersStage db rule event ∧ event.createdAt < month.start ∧ event.byHuman ∧
            dealId ∈ rows.map Activity.dealId then
          some (rule.1, dealId)
        else none
  else []

def Activity.key (event : Activity) : ActivityMetric × String := (event.metric, event.dealId)

/-- The loop of `credited`, with the keys `seen` so far. -/
def creditLoop (unique : ActivityMetric → Bool) (period : Period) :
    List (ActivityMetric × String) → List Activity → List Activity
  | _, [] => []
  | seen, event :: rest =>
    if unique event.metric && (event.system || event.key ∈ seen) then creditLoop unique period seen rest
    else
      let seen := if unique event.metric then event.key :: seen else seen
      if period.has event.occurredAt then event :: creditLoop unique period seen rest
      else creditLoop unique period seen rest

def credited (mode : Option CompetitionMode) (month period : Period) : List Activity :=
  creditLoop (isUnique department mode) period (previous db department mode month) (activities db department month)

/-- `selectedIds`. -/
def selectedIds (view : View) (month : Period) : List String :=
  view.ids ++
    (if view.allManagers then (activities db department month).filterMap Activity.actorId else []) ++
    match db.finance with
    | some source => if view.allManagers then source.links.filterMap id else []
    | none => []

/-- `snapshot.names`: the users asked for and those of the group, and for all managers the actors and the linked
managers who are missing. -/
def names (view : View) (month : Period) : List CrmUser :=
  let first := db.users.filter fun user => user.id ∈ view.ids ∨ user.groupId = some department.groupId
  let missing (ids : List String) (found : List CrmUser) :=
    db.users.filter fun user => user.id ∈ ids ∧ user.id ∉ found.map CrmUser.id
  if view.allManagers then
    let second := first ++ missing ((activities db department month).filterMap Activity.actorId) first
    match db.finance with
    | some _ => second ++ missing (selectedIds db department view month) second
    | none => second
  else first

inductive FactMetric
  | activity (metric : ActivityMetric)
  | shipments
  | shipmentMargin

/-- `Math.round((v + Number.EPSILON) * 100) / 100`. -/
def roundMoney (v : ℚ) : ℚ := ⌊(v + 1 / 2 ^ 52) * 100 + 1 / 2⌋ / 100

/-- `relevant`: the asked manager, or for the total anybody selected. -/
def relevant (selected : List String) (id : Option String) (actor : Option String) : Bool :=
  match actor, id with
  | none, _ => false
  | some actor, some id => actor = id
  | some actor, none => actor ∈ selected

/-- The credited events of a metric. -/
def creditedFact (mode : Option CompetitionMode) (view : View) (month period : Period) (id : Option String)
    (metric : ActivityMetric) : ℕ :=
  ((credited db department mode month period).filter fun event =>
    event.metric = metric ∧ relevant (selectedIds db department view month) id event.actorId).length

/-- The amounts of the shipments. -/
def shippedFact (view : View) (month period : Period) (id : Option String) : ℚ :=
  (((performanceShipments db.shipping department.refs department.key period).filter fun row =>
    relevant (selectedIds db department view month) id row.actorId).map ShipmentRow.amount).sum

/-- `fact` of `valuesFor(id)`. -/
def fact (mode : Option CompetitionMode) (view : View) (month period : Period) (id : Option String) :
    FactMetric → Option ℚ
  | .activity metric => some (creditedFact db department mode view month period id metric)
  | .shipments => some (shippedFact db department view month period id)
  | .shipmentMargin =>
    match db.finance with
    | some source =>
      if source.hasCutoff then
        some (roundMoney ((source.documents.filter fun document =>
          relevant (selectedIds db department view month) id document.managerId).map FinanceDocument.margin).sum)
      else none
    | none => none

/-- The managers with a row. -/
def rows (view : View) (month : Period) : List CrmUser :=
  (names db department view month).filter fun user => user.id ∈ selectedIds db department view month

end Functions

end AmoAnalytics.Workspaces.Performance
