import AmoAnalytics.Lib.SqlText
import AmoAnalytics.Lib.Transaction
import AmoAnalytics.Platform.PlanFactShipping

/-!
# Writing a plan

`updatePlanFact` writes the plan of a metric and a target for a month into a plan set, or clears it. A row of the plan
and its facts reads the first item of the month that names its target by id or by name; a write changes one item, so
every row that reads neither its old nor its new form keeps its plan.
-/

namespace AmoAnalytics.Platform.PlanFact

open JsText SqlText
open Transaction (bind_ok)

/-! ## `platform.service.ts` -/

structure PlanFactBody where
  month : Option String
  metricKey : Option String
  targetType : Option String
  targetId : Option String
  value : Option JsString
  planSetId : Option String

/-- The plan sets, with the names that a target is resolved to. Ids are primary keys. -/
structure PlanDatabase where
  planSets : List PlanSet
  managerNames : String → Option JsString
  groupNames : String → Option JsString
  setIds : (planSets.map PlanSet.id).Nodup
  itemIds : ∀ planSet ∈ planSets, (planSet.items.map PlanItem.id).Nodup

/-- What the database makes for new rows. -/
structure NewRows (db : PlanDatabase) where
  planSetId : String
  itemId : String
  now : ℤ
  fresh : planSetId ∉ db.planSets.map PlanSet.id

/-- What an accepted update does: the plan sets after it, the plan set as it was read, the item as it was and the item
that was written. -/
structure PlanFactUpdate where
  planSets : List PlanSet
  planSet : Option PlanSet
  existing : Option PlanItem
  item : Option PlanItem
deriving DecidableEq

def parsePlanTargetType (input : Option String) : TargetType :=
  match (input.getD "COMPANY").toUpper with
  | "GROUP" => .group
  | "MANAGER" => .manager
  | _ => .company

/-- `value === undefined || value === null || value === ''` gives no text. -/
def optionalString (value : Option String) : Option String := value.filter (· ≠ "")

/-- `/^[-+]?\d+(\.\d+)?$/` on the digits, signs and marks of the text, with a point for the first comma. -/
def optionalDecimal (value : JsString) : Except String ℚ :=
  let normalized := pointForComma (value.filter fun c => isDigit c || oneOf ",.-+" c)
  let unsigned :=
    match normalized with
    | 43 :: 45 :: _ => []
    | 43 :: rest => rest
    | text => text
  match plainDecimal unsigned with
  | some number => .ok number
  | none => .error "Введите число"

def normalizePlanFactPlanValue (metric : PlanFactMetric) (value : ℚ) : ℚ :=
  if metric.unit = .number then (⌈value⌉ : ℚ) else value

def resolvePlanTargetName (db : PlanDatabase) (targetType : TargetType) (targetId : String) : Option JsString :=
  match targetType with
  | .manager => db.managerNames targetId
  | .group => db.groupNames targetId
  | .company => none

/-- The plan set of the year to write to, with the plan sets that hold it. -/
def ensurePlanFactPlanSet {db : PlanDatabase} (rows : NewRows db) (year : ℤ) : List PlanSet × PlanSet :=
  match latestActive (db.planSets.filter (·.year = some year)) with
  | some existing => (db.planSets, existing)
  | none =>
    let created : PlanSet := ⟨rows.planSetId, js "Планы " ++ js (Int.repr year), some year, true, rows.now, []⟩
    (db.planSets ++ [created], created)

/-- The item of exactly the month, the metric and the target. -/
def isExact (calendar : Calendar) (metric : PlanFactMetric) (targetType : TargetType) (targetId : String)
    (item : PlanItem) : Bool :=
  item.metricKey = metric.key && item.targetType = targetType && item.targetId = some targetId &&
    item.periodStart = calendar.monthStart && item.periodEnd = calendar.monthEnd

/-- The plan sets with other items in the one of the id. -/
def withItems (id : String) (f : List PlanItem → List PlanItem) (planSets : List PlanSet) : List PlanSet :=
  planSets.map fun planSet => if planSet.id = id then { planSet with items := f planSet.items } else planSet

/-- The write of a value into a plan set. -/
def writePlan (planSets : List PlanSet) (planSet : PlanSet) (existing : Option PlanItem) (item : PlanItem) :
    PlanFactUpdate where
  planSets :=
    match existing with
    | some old => withItems planSet.id (List.map fun other => if other.id = old.id then item else other) planSets
    | none => withItems planSet.id (· ++ [item]) planSets
  planSet := some planSet
  existing
  item := some item

/-- The plan set to write to: the one of the body, or the latest active one of the year, which a value makes. -/
def planSetToWrite {db : PlanDatabase} (rows : NewRows db) (year : ℤ) (planSetId : Option String)
    (shouldClear : Bool) : List PlanSet × Option PlanSet :=
  match planSetId.filter (· ≠ "") with
  | some id => (db.planSets, db.planSets.find? (·.id = id))
  | none =>
    if shouldClear then (db.planSets, latestActive (db.planSets.filter (·.year = some year)))
    else
      let (planSets, planSet) := ensurePlanFactPlanSet rows year
      (planSets, some planSet)

/-- The metric, the type of target and the target that the body is for. -/
def planTarget (body : PlanFactBody) : Except String (PlanFactMetric × TargetType × String) :=
  match PLAN_FACT_METRICS.find? (·.key = body.metricKey.getD "") with
  | none => .error "Неизвестная метрика плана"
  | some metric =>
    let targetType := parsePlanTargetType body.targetType
    if targetType = .company then .error "Для план-факта нужен менеджер или отдел"
    else if metric.kind = .conversion ∧ targetType ≠ .group then .error "План конверсии задаётся один раз на отдел"
    else
      match optionalString body.targetId with
      | none => .error "Не выбран получатель плана"
      | some targetId => .ok (metric, targetType, targetId)

/-- The value of the body; none clears the plan. -/
def planValue (value : Option JsString) : Except String (Option ℚ) :=
  match value.filter (· ≠ []) with
  | none => .ok none
  | some text => (optionalDecimal text).map some

/-- The item of a plan for the month. -/
def planItem (calendar : Calendar) (metric : PlanFactMetric) (targetType : TargetType) (targetId : String)
    (targetName : Option JsString) (value : ℚ) (id : String) : PlanItem where
  id
  periodType := "MONTH"
  periodStart := calendar.monthStart
  periodEnd := calendar.monthEnd
  targetType
  targetId := some targetId
  targetName
  metricKey := metric.key
  metricName := metric.label
  value := normalizePlanFactPlanValue metric value
  unit := metric.unit

/-- The change of a plan set: the clearing of the item, or its update or creation. -/
def changePlan (calendar : Calendar) (metric : PlanFactMetric) (targetType : TargetType) (targetId : String)
    (targetName : Option JsString) (itemId : String) (value : Option ℚ) (planSets : List PlanSet)
    (planSet : PlanSet) : PlanFactUpdate :=
  let existing := planSet.items.find? (isExact calendar metric targetType targetId)
  match value, existing with
  | none, some old => ⟨withItems planSet.id (List.filter (·.id ≠ old.id)) planSets, some planSet, some old, none⟩
  | none, none => ⟨planSets, some planSet, none, none⟩
  | some value, existing =>
    writePlan planSets planSet existing
      (planItem calendar metric targetType targetId targetName value ((existing.map PlanItem.id).getD itemId))

/-- `updatePlanFact` in the calendar of the month of the body. -/
def updatePlanFactOf (calendar : Calendar) (isAdmin : Bool) (db : PlanDatabase) (rows : NewRows db)
    (body : PlanFactBody) : Except String PlanFactUpdate :=
  if !isAdmin then .error "Нет доступа"
  else do
    let (metric, targetType, targetId) ← planTarget body
    let value ← planValue body.value
    let (planSets, planSet) := planSetToWrite rows calendar.year body.planSetId value.isNone
    match planSet with
    | none => if value.isNone then .ok ⟨planSets, none, none, none⟩ else .error "План не найден"
    | some planSet =>
      .ok (changePlan calendar metric targetType targetId (resolvePlanTargetName db targetType targetId) rows.itemId
        value planSets planSet)

def updatePlanFact (offset : ℤ → ℤ) (now : ℤ) (isAdmin : Bool) (db : PlanDatabase)
    (rows : NewRows db) (body : PlanFactBody) (fuel : ℕ) : Option (Except String PlanFactUpdate) :=
  (planFactCalendar offset (parsePlanFactMonth offset now body.month) now fuel).map fun calendar =>
    updatePlanFactOf calendar isAdmin db rows body

/-! ## The plan set that is written to -/

theorem mem_of_latestActive {planSets : List PlanSet} {planSet : PlanSet} (h : latestActive planSets = some planSet) :
    planSet ∈ planSets := by
  have hfold : ∀ (items : List PlanSet) (last : Option PlanSet), items.foldl (fun last planSet =>
      match last with
      | none => some planSet
      | some previous => if previous.updatedAt < planSet.updatedAt then some planSet else some previous) last =
        some planSet → last = some planSet ∨ planSet ∈ items := by
    intro items
    induction items with
    | nil => exact fun last hlast => .inl hlast
    | cons item items ih =>
      intro last hlast
      rcases ih _ hlast with hnext | hmem
      · cases last with
        | none =>
          exact .inr (Option.some.inj hnext ▸ List.mem_cons_self)
        | some previous =>
          dsimp only at hnext
          split_ifs at hnext
          · exact .inr (Option.some.inj hnext ▸ List.mem_cons_self)
          · exact .inl hnext
      · exact .inr (List.mem_cons_of_mem _ hmem)
  rcases hfold _ _ h with hnone | hmem
  · cases hnone
  · exact (List.mem_filter.1 hmem).1

section Write

variable {db : PlanDatabase} {rows : NewRows db} {year : ℤ} {planSetId : Option String} {shouldClear : Bool}
  {planSets : List PlanSet} {planSet : PlanSet}

/-- The plan set that is written to is one of those after its creation, whose ids are different. -/
theorem planSetToWrite_spec (h : planSetToWrite rows year planSetId shouldClear = (planSets, some planSet)) :
    planSet ∈ planSets ∧ (planSets.map PlanSet.id).Nodup ∧
      ∀ planSet ∈ planSets, (planSet.items.map PlanItem.id).Nodup := by
  have hold : ∀ {found : PlanSet}, found ∈ db.planSets → found ∈ db.planSets ∧ (db.planSets.map PlanSet.id).Nodup ∧
      ∀ planSet ∈ db.planSets, (planSet.items.map PlanItem.id).Nodup := fun hmem => ⟨hmem, db.setIds, db.itemIds⟩
  unfold planSetToWrite at h
  cases hid : planSetId.filter (· ≠ "") with
  | some id =>
    rw [hid] at h
    obtain ⟨rfl, hfind⟩ := Prod.mk.inj h
    exact hold (List.mem_of_find?_eq_some hfind)
  | none =>
    rw [hid] at h
    dsimp only at h
    split_ifs at h
    · obtain ⟨rfl, hlatest⟩ := Prod.mk.inj h
      exact hold (List.mem_filter.1 (mem_of_latestActive hlatest)).1
    · unfold ensurePlanFactPlanSet at h
      cases hlatest : latestActive (db.planSets.filter (·.year = some year)) with
      | some existing =>
        rw [hlatest] at h
        obtain ⟨rfl, hsome⟩ := Prod.mk.inj h
        obtain rfl := Option.some.inj hsome
        exact hold (List.mem_filter.1 (mem_of_latestActive hlatest)).1
      | none =>
        rw [hlatest] at h
        obtain ⟨rfl, hsome⟩ := Prod.mk.inj h
        obtain rfl := Option.some.inj hsome
        refine ⟨List.mem_append_right _ List.mem_cons_self, ?_, fun planSet hmem => ?_⟩
        · rw [List.map_append, List.map_singleton]
          refine List.nodup_append.2 ⟨db.setIds, List.nodup_singleton _, ?_⟩
          rintro id hid' _ hnew rfl
          have heq : id = rows.planSetId := List.mem_singleton.1 hnew
          exact rows.fresh (heq ▸ hid')
        · rcases List.mem_append.1 hmem with hmem | hmem
          · exact db.itemIds planSet hmem
          · rw [List.mem_singleton.1 hmem]
            exact List.nodup_nil

/-- Without a plan set to write to no plan set was made. -/
theorem planSetToWrite_none (h : planSetToWrite rows year planSetId shouldClear = (planSets, none)) :
    planSets = db.planSets := by
  unfold planSetToWrite at h
  cases hid : planSetId.filter (· ≠ "") with
  | some id =>
    rw [hid] at h
    exact (Prod.mk.inj h).1.symm
  | none =>
    rw [hid] at h
    dsimp only at h
    split_ifs at h
    · exact (Prod.mk.inj h).1.symm
    · cases (Prod.mk.inj h).2

end Write

/-! ## The items after a write -/

/-- The items of the plan set of an id. -/
def itemsOf (planSets : List PlanSet) (id : String) : List PlanItem :=
  ((planSets.find? (·.id = id)).map PlanSet.items).getD []

theorem itemsOf_withItems {planSets : List PlanSet} {planSet : PlanSet} (hids : (planSets.map PlanSet.id).Nodup)
    (hmem : planSet ∈ planSets) (f : List PlanItem → List PlanItem) :
    itemsOf (withItems planSet.id f planSets) planSet.id = f planSet.items := by
  unfold itemsOf withItems
  induction planSets with
  | nil => cases hmem
  | cons other planSets ih =>
    rw [List.map_cons, List.nodup_cons] at hids
    rw [List.map_cons, List.find?_cons]
    by_cases hother : other.id = planSet.id
    · have heq : planSet = other := by
        rcases List.mem_cons.1 hmem with heq | hlater
        · exact heq
        · exact absurd (hother ▸ List.mem_map_of_mem hlater) hids.1
      subst heq
      simp
    · rw [if_neg hother, decide_eq_false hother]
      rcases List.mem_cons.1 hmem with heq | hlater
      · exact absurd (heq ▸ rfl) hother
      · exact ih hids.2 hlater

theorem withItems_ids (id : String) (f : List PlanItem → List PlanItem) (planSets : List PlanSet) :
    (withItems id f planSets).map PlanSet.id = planSets.map PlanSet.id := by
  unfold withItems
  rw [List.map_map]
  refine List.map_congr_left fun planSet _ => ?_
  by_cases hid : planSet.id = id
  · rw [Function.comp_apply, if_pos hid]
  · rw [Function.comp_apply, if_neg hid]

theorem writePlan_ids (planSets : List PlanSet) (planSet : PlanSet) (existing : Option PlanItem) (item : PlanItem) :
    (writePlan planSets planSet existing item).planSets.map PlanSet.id = planSets.map PlanSet.id := by
  cases existing with
  | none => exact withItems_ids planSet.id (· ++ [item]) planSets
  | some old => exact withItems_ids ..

theorem itemsOf_of_mem {planSets : List PlanSet} {planSet : PlanSet} (hids : (planSets.map PlanSet.id).Nodup)
    (hmem : planSet ∈ planSets) : itemsOf planSets planSet.id = planSet.items := by
  have h := itemsOf_withItems hids hmem id
  have hsame : withItems planSet.id id planSets = planSets := by
    unfold withItems
    simp
  rwa [hsame] at h

/-- The items that an update changes, as they were and as they are. -/
def changes (update : PlanFactUpdate) : List PlanItem := update.existing.toList ++ update.item.toList

/-- What the items of a plan set are after an update: a search that meets none of the changed items finds the same,
the written item is there, and any other is an old one that was not replaced or cleared. -/
structure ItemsAfter (update : PlanFactUpdate) (before after : List PlanItem) : Prop where
  found : ∀ p : PlanItem → Bool, (∀ item ∈ changes update, p item = false) → after.find? p = before.find? p
  written : ∀ item, update.item = some item → item ∈ after
  kept : ∀ item ∈ after, update.item = some item ∨ item ∈ before ∧ update.existing ≠ some item

/-- It holds of the items of a kind too that the written one is of. -/
theorem ItemsAfter.filter {update : PlanFactUpdate} {before after : List PlanItem}
    (h : ItemsAfter update before after)
    {kind : PlanItem → Bool} (hkind : ∀ item, update.item = some item → kind item = true) :
    ItemsAfter update (before.filter kind) (after.filter kind) := by
  refine ⟨fun p hp => ?_, fun item hitem => ?_, fun item hitem => ?_⟩
  · rw [List.find?_filter, List.find?_filter]
    refine h.found _ fun item hitem => ?_
    rw [hp item hitem]
    simp
  · exact List.mem_filter.2 ⟨h.written item hitem, hkind item hitem⟩
  · obtain ⟨hafter, hof⟩ := List.mem_filter.1 hitem
    rcases h.kept item hafter with hnew | ⟨hbefore, hne⟩
    · exact .inl hnew
    · exact .inr ⟨List.mem_filter.2 ⟨hbefore, hof⟩, hne⟩

/-- In a list of different ids an item is known by its id. -/
theorem eq_of_id {items : List PlanItem} (h : (items.map PlanItem.id).Nodup) {item other : PlanItem}
    (hitem : item ∈ items)
    (hother : other ∈ items) (hid : other.id = item.id) : other = item :=
  List.inj_on_of_nodup_map h hother hitem hid

theorem find?_replaced {items : List PlanItem} {old item : PlanItem} (h : (items.map PlanItem.id).Nodup)
    (hold : old ∈ items) {p : PlanItem → Bool} (hp : p old = false) (hp' : p item = false) :
    (items.map fun other => if other.id = old.id then item else other).find? p = items.find? p := by
  have hsame : ∀ rest : List PlanItem, (∀ other ∈ rest, other ∈ items) →
      (rest.map fun other => if other.id = old.id then item else other).find? p = rest.find? p := by
    intro rest hrest
    induction rest with
    | nil => rfl
    | cons other rest ih =>
      have htail := ih fun another hmem => hrest another (List.mem_cons_of_mem _ hmem)
      rw [List.map_cons, List.find?_cons, List.find?_cons, htail]
      by_cases hid : other.id = old.id
      · rw [if_pos hid, hp', eq_of_id h hold (hrest other List.mem_cons_self) hid, hp]
      · rw [if_neg hid]
  exact hsame items fun _ hmem => hmem

theorem find?_removed {items : List PlanItem} {old : PlanItem} (h : (items.map PlanItem.id).Nodup)
    (hold : old ∈ items)
    {p : PlanItem → Bool} (hp : p old = false) : (items.filter (·.id ≠ old.id)).find? p = items.find? p := by
  rw [List.find?_filter]
  refine List.find?_congr fun item hitem => ?_
  by_cases hid : item.id = old.id
  · rw [eq_of_id h hold hitem hid, hp]
    simp
  · simp [hid]

theorem find?_appended {items : List PlanItem} {item : PlanItem} {p : PlanItem → Bool} (hp : p item = false) :
    (items ++ [item]).find? p = items.find? p := by
  rw [List.find?_append, List.find?_singleton, if_neg (by rw [hp]; exact Bool.false_ne_true), Option.or_none]

section ItemsAfter

variable {planSets : List PlanSet} {planSet : PlanSet} (hids : (planSets.map PlanSet.id).Nodup)
  (hmem : planSet ∈ planSets)

include hids hmem

theorem itemsAfter_of_replace (hitems : (planSet.items.map PlanItem.id).Nodup) {old : PlanItem}
    (hold : old ∈ planSet.items) (item : PlanItem) :
    ItemsAfter (writePlan planSets planSet (some old) item) planSet.items
      (itemsOf (writePlan planSets planSet (some old) item).planSets planSet.id) := by
  have hafter : itemsOf (writePlan planSets planSet (some old) item).planSets planSet.id =
      planSet.items.map fun other => if other.id = old.id then item else other := itemsOf_withItems hids hmem _
  rw [hafter]
  refine ⟨fun p hp => ?_, fun written hwritten => ?_, fun kept hkept => ?_⟩
  · exact find?_replaced hitems hold (hp old (List.mem_append_left _ (List.mem_singleton.2 rfl)))
      (hp item (List.mem_append_right _ (List.mem_singleton.2 rfl)))
  · obtain rfl : item = written := Option.some.inj hwritten
    exact List.mem_map.2 ⟨old, hold, if_pos rfl⟩
  · obtain ⟨other, hother, rfl⟩ := List.mem_map.1 hkept
    by_cases hid : other.id = old.id
    · rw [if_pos hid]
      exact .inl rfl
    · rw [if_neg hid]
      refine .inr ⟨hother, fun hsame => hid ?_⟩
      rw [Option.some.inj hsame]

theorem itemsAfter_of_create (item : PlanItem) :
    ItemsAfter (writePlan planSets planSet none item) planSet.items
      (itemsOf (writePlan planSets planSet none item).planSets planSet.id) := by
  have hafter : itemsOf (writePlan planSets planSet none item).planSets planSet.id = planSet.items ++ [item] :=
    itemsOf_withItems hids hmem (· ++ [item])
  rw [hafter]
  refine ⟨fun p hp => ?_, fun written hwritten => ?_, fun kept hkept => ?_⟩
  · exact find?_appended (hp item (List.mem_append_right _ (List.mem_singleton.2 rfl)))
  · obtain rfl : item = written := Option.some.inj hwritten
    exact List.mem_append_right _ (List.mem_singleton.2 rfl)
  · rcases List.mem_append.1 hkept with hkept | hkept
    · exact .inr ⟨hkept, nofun⟩
    · rw [List.mem_singleton.1 hkept]
      exact .inl rfl

theorem itemsAfter_of_clear (hitems : (planSet.items.map PlanItem.id).Nodup) {old : PlanItem}
    (hold : old ∈ planSet.items) :
    ItemsAfter ⟨withItems planSet.id (List.filter (·.id ≠ old.id)) planSets, some planSet, some old,
      none⟩ planSet.items
      (itemsOf (withItems planSet.id (List.filter (·.id ≠ old.id)) planSets) planSet.id) := by
  rw [itemsOf_withItems hids hmem]
  refine ⟨fun p hp => ?_, fun written hwritten => ?_, fun kept hkept => ?_⟩
  · exact find?_removed hitems hold (hp old (List.mem_append_left _ (List.mem_singleton.2 rfl)))
  · cases hwritten
  · obtain ⟨hkept, hne⟩ := List.mem_filter.1 hkept
    refine .inr ⟨hkept, fun hsame => of_decide_eq_true hne ?_⟩
    rw [← Option.some.inj hsame]

theorem itemsAfter_of_unchanged :
    ItemsAfter ⟨planSets, some planSet, none, none⟩ planSet.items (itemsOf planSets planSet.id) := by
  rw [itemsOf_of_mem hids hmem]
  refine ⟨fun _ _ => rfl, fun _ hwritten => ?_, fun _ hitem => .inr ⟨hitem, fun hsome => ?_⟩⟩
  · cases hwritten
  · cases hsome

end ItemsAfter

theorem planTarget_ok {body : PlanFactBody} {metric : PlanFactMetric} {targetType : TargetType} {targetId : String}
    (h : planTarget body = .ok (metric, targetType, targetId)) :
    metric ∈ PLAN_FACT_METRICS ∧ targetType ≠ .company ∧ (metric.kind = .conversion → targetType = .group) := by
  unfold planTarget at h
  cases hmetric : PLAN_FACT_METRICS.find? (·.key = body.metricKey.getD "") with
  | none =>
    rw [hmetric] at h
    cases h
  | some found =>
    rw [hmetric] at h
    dsimp only at h
    split_ifs at h with hcompany hconversion
    cases htarget : optionalString body.targetId with
    | none =>
      rw [htarget] at h
      cases h
    | some target =>
      rw [htarget] at h
      cases h
      exact ⟨List.mem_of_find?_eq_some hmetric, hcompany, fun hkind => by_contra fun hgroup =>
        hconversion ⟨hkind, hgroup⟩⟩

/-- What an update for a metric, a target and a value changes. -/
structure Changed (calendar : Calendar) (metric : PlanFactMetric) (targetType : TargetType) (targetId : String)
    (value : Option ℚ) (update : PlanFactUpdate) : Prop where
  exact : ∀ item ∈ changes update, isExact calendar metric targetType targetId item = true
  written : ∀ number, value = some number → ∃ item, update.item = some item ∧
    item.value = normalizePlanFactPlanValue metric number
  cleared : value = none → update.item = none
  ids : (update.planSets.map PlanSet.id).Nodup
  after : ∀ planSet, update.planSet = some planSet →
    ItemsAfter update planSet.items (itemsOf update.planSets planSet.id)
  unset : update.planSet = none → value = none ∧ changes update = []

theorem isExact_planItem (calendar : Calendar) (metric : PlanFactMetric) (targetType : TargetType) (targetId : String)
    (targetName : Option JsString) (value : ℚ) (id : String) :
    isExact calendar metric targetType targetId
      (planItem calendar metric targetType targetId targetName value id) = true := by
  simp [isExact, planItem]

theorem changePlan_changed {calendar : Calendar} {metric : PlanFactMetric} {targetType : TargetType} {targetId :
    String}
    {targetName : Option JsString} {itemId : String} {planSets : List PlanSet} {planSet : PlanSet}
    (hids : (planSets.map PlanSet.id).Nodup) (hmem : planSet ∈ planSets)
    (hitems : (planSet.items.map PlanItem.id).Nodup) (value : Option ℚ) :
    Changed calendar metric targetType targetId value
      (changePlan calendar metric targetType targetId targetName itemId value planSets planSet) := by
  unfold changePlan
  cases hexisting : planSet.items.find? (isExact calendar metric targetType targetId) with
  | none =>
    cases value with
    | none =>
      refine ⟨fun item hitem => ?_, fun _ h => ?_, fun _ => rfl, hids, fun _ h => ?_, fun h => ?_⟩
      · cases hitem
      · cases h
      · cases h
        exact itemsAfter_of_unchanged hids hmem
      · cases h
    | some number =>
      refine ⟨fun item hitem => ?_, fun _ h => ?_, fun h => ?_, ?_, fun _ h => ?_, fun h => ?_⟩
      · obtain rfl := List.mem_singleton.1 hitem
        exact isExact_planItem ..
      · cases h
        exact ⟨_, rfl, rfl⟩
      · cases h
      · change ((writePlan _ _ _ _).planSets.map PlanSet.id).Nodup
        rw [writePlan_ids]
        exact hids
      · cases h
        exact itemsAfter_of_create hids hmem _
      · cases h
  | some old =>
    have hold := List.mem_of_find?_eq_some hexisting
    have hexact := List.find?_some hexisting
    cases value with
    | none =>
      refine ⟨fun item hitem => ?_, fun _ h => ?_, fun _ => rfl, ?_, fun _ h => ?_, fun h => ?_⟩
      · obtain rfl := List.mem_singleton.1 hitem
        exact hexact
      · cases h
      · change ((withItems _ _ _).map PlanSet.id).Nodup
        rw [withItems_ids]
        exact hids
      · cases h
        exact itemsAfter_of_clear hids hmem hitems hold
      · cases h
    | some number =>
      refine ⟨fun item hitem => ?_, fun _ h => ?_, fun h => ?_, ?_, fun _ h => ?_, fun h => ?_⟩
      · rcases List.mem_cons.1 hitem with rfl | hitem
        · exact hexact
        · obtain rfl := List.mem_singleton.1 hitem
          exact isExact_planItem ..
      · cases h
        exact ⟨_, rfl, rfl⟩
      · cases h
      · change ((writePlan _ _ _ _).planSets.map PlanSet.id).Nodup
        rw [writePlan_ids]
        exact hids
      · cases h
        exact itemsAfter_of_replace hids hmem hitems hold _
      · cases h

/-- An accepted update is a change for the metric, the target and the value of its body. -/
theorem updatePlanFactOf_ok {calendar : Calendar} {isAdmin : Bool} {db : PlanDatabase} {rows : NewRows db}
    {body : PlanFactBody} {update : PlanFactUpdate}
    (h : updatePlanFactOf calendar isAdmin db rows body = .ok update) :
    ∃ metric targetType targetId value, planTarget body = .ok (metric, targetType, targetId) ∧
      planValue body.value = .ok value ∧ Changed calendar metric targetType targetId value update := by
  unfold updatePlanFactOf at h
  split_ifs at h
  obtain ⟨⟨metric, targetType, targetId⟩, htarget, h⟩ := bind_ok.1 h
  obtain ⟨value, hvalue, h⟩ := bind_ok.1 h
  refine ⟨metric, targetType, targetId, value, htarget, hvalue, ?_⟩
  cases hset : planSetToWrite rows calendar.year body.planSetId value.isNone with
  | mk planSets planSet =>
    rw [hset] at h
    cases planSet with
    | none =>
      dsimp only at h
      split_ifs at h with hclear
      cases h
      have hnone := Option.isNone_iff_eq_none.1 hclear
      refine ⟨fun item hitem => ?_, fun number hnumber => ?_, fun _ => rfl, ?_, fun _ hsome => ?_,
        fun _ => ⟨hnone, rfl⟩⟩
      · cases hitem
      · rw [hnone] at hnumber
        cases hnumber
      · rw [planSetToWrite_none hset]
        exact db.setIds
      · cases hsome
    | some planSet =>
      cases h
      obtain ⟨hmem, hids, hitems⟩ := planSetToWrite_spec hset
      exact changePlan_changed hids hmem (hitems planSet hmem) value

/-! ## Rows and the items they read -/

/-- The plan of a metric that a row shows. -/
def planShown (row : PlanFactRow) (key : String) : Option ℚ := (row.values.lookup key).bind PlanFactPace.plan

/-- A plan as a row shows it: rounded, and none for zero. -/
def shown (metric : PlanFactMetric) (plan : Option ℚ) : Option ℚ :=
  (plan.filter (· ≠ 0)).map (roundPlanFactValue metric)

/-- The rounding of a plan for the write changes nothing of what its rounding for the page shows. -/
theorem roundPlanFactValue_normalize (metric : PlanFactMetric) (value : ℚ) :
    roundPlanFactValue metric (normalizePlanFactPlanValue metric value) = roundPlanFactValue metric value := by
  unfold roundPlanFactValue normalizePlanFactPlanValue
  split_ifs
  · rw [Int.ceil_intCast]
  · rfl

theorem planFactPace_plan (metric : PlanFactMetric) (plan factMonth factToday factBeforeToday : Option ℚ)
    (calendar : Calendar) : (planFactPace metric plan factMonth factToday factBeforeToday calendar).plan =
      shown metric plan := by
  unfold planFactPace shown
  cases plan.filter (· ≠ 0) with
  | none => rfl
  | some plan =>
    dsimp only
    split_ifs <;> rfl

/-- Among the metrics of a team each is found by its key. -/
theorem find?_metric {metric : PlanFactMetric} (hmem : metric ∈ PLAN_FACT_METRICS) :
    (PLAN_FACT_METRICS.filter (·.team = metric.team)).find? (·.key = metric.key) = some metric := by
  revert metric
  decide

/-- A metric of the other team is not found. -/
theorem find?_otherMetric {metric : PlanFactMetric} (hmem : metric ∈ PLAN_FACT_METRICS) {team : TeamKey}
    (hteam : metric.team ≠ team) :
    (PLAN_FACT_METRICS.filter (·.team = team)).find? (·.key = metric.key) = none := by
  cases team
  · revert metric
    decide
  · revert metric
    decide

section Rows

variable (toLowerCase : JsString → JsString) (nameLE : JsString → JsString → Prop) [DecidableRel nameLE]

/-- The row of the team reads the item for the metric: for a conversion a manager reads the item of the group. -/
def rowReads (team : PlanFactTeam) (row : PlanFactRow) (metric : PlanFactMetric) (item : PlanItem) : Bool :=
  if metric.kind = .conversion ∧ row.targetType = .manager then
    isDirect toLowerCase metric .group (some team.groupId) team.name item
  else isDirect toLowerCase metric row.targetType row.targetId row.targetName item

/-- The sum of the plans that rows show. -/
def rowsPlan (metric : PlanFactMetric) (rows : List PlanFactRow) : Option ℚ :=
  match shownPlans metric rows with
  | [] => none
  | values => some (roundMetric values.sum)

variable {toLowerCase} in
theorem findPlanValue_manager (items : List PlanItem) (metric : PlanFactMetric) (targetId : Option String)
    (targetName : JsString) (groupTarget : GroupTarget) :
    findPlanValue toLowerCase items metric .manager targetId targetName none (some groupTarget) =
      (items.find? (if metric.kind = .conversion then
        isDirect toLowerCase metric .group (some groupTarget.targetId) groupTarget.targetName
        else isDirect toLowerCase metric .manager targetId targetName)).map PlanItem.value := by
  unfold findPlanValue
  cases metric.kind with
  | conversion => rfl
  | additive =>
    simp only [reduceCtorEq, if_false]
    cases items.find? (isDirect toLowerCase metric .manager targetId targetName) <;> rfl

variable {toLowerCase} in
theorem findPlanValue_group (items : List PlanItem) (metric : PlanFactMetric) (targetId : Option String)
    (targetName : JsString) (rows : List PlanFactRow) (groupTarget : GroupTarget) :
    findPlanValue toLowerCase items metric .group targetId targetName (some rows) (some groupTarget) =
      ((items.find? (isDirect toLowerCase metric .group targetId targetName)).map PlanItem.value).or
        (rowsPlan metric rows) := by
  have hdirect : findPlanValue toLowerCase items metric .group targetId targetName (some rows) (some groupTarget) =
      match items.find? (isDirect toLowerCase metric .group targetId targetName) with
      | some direct => some direct.value
      | none => rowsPlan metric rows := by
    unfold findPlanValue
    cases metric.kind <;> rfl
  rw [hdirect]
  cases items.find? (isDirect toLowerCase metric .group targetId targetName) <;> rfl

/-- A row of a team shows the plans that are found for it. -/
theorem planShown_row {team : TeamKey} {metric : PlanFactMetric} (hmetric : metric ∈ PLAN_FACT_METRICS)
    (targetType : TargetType) (targetId : Option String) (targetName : JsString) (groupTarget : GroupTarget)
    (items : List PlanItem) (calendar : Calendar) (reports : TeamReports) (rows : Option (List PlanFactRow)) :
    planShown (buildPlanFactTargetRow toLowerCase targetType targetId targetName groupTarget
      (PLAN_FACT_METRICS.filter (·.team = team)) items calendar reports rows) metric.key =
      if metric.team = team then
        shown metric (findPlanValue toLowerCase items metric targetType targetId targetName rows (some groupTarget))
      else none := by
  unfold planShown
  simp only [buildPlanFactTargetRow, lookup_values]
  by_cases hteam : metric.team = team
  · rw [if_pos hteam, ← hteam, find?_metric hmetric]
    exact planFactPace_plan ..
  · rw [if_neg hteam, find?_otherMetric hmetric hteam]
    rfl

/-! ## Teams before and after -/

/-- The plans of a team: those of its managers come from the items they read, and the total without an item of its own
has the sum of the rows. -/
structure PlansFrom (items : List PlanItem) (team : PlanFactTeam) : Prop where
  row : ∀ row ∈ team.rows, row.targetType = .manager ∧ ∀ metric ∈ PLAN_FACT_METRICS, planShown row metric.key =
    if metric.team = team.key then
      shown metric ((items.find? (rowReads toLowerCase team row metric)).map PlanItem.value)
    else none
  total : team.total.targetType = .group ∧ ∀ metric ∈ PLAN_FACT_METRICS, planShown team.total metric.key =
    if metric.team = team.key then
      shown metric (((items.find? (rowReads toLowerCase team team.total metric)).map PlanItem.value).or
        (rowsPlan metric team.rows))
    else none

theorem buildPlanFactTeam_plans (sources : Sources) (team : TeamKey) (groupId : String) (shipping : Shipping)
    (items : List PlanItem) (calendar : Calendar) :
    PlansFrom toLowerCase items (buildPlanFactTeam toLowerCase nameLE sources team groupId shipping items calendar)
      := by
  refine ⟨fun row hrow => ?_, rfl, fun metric hmetric => ?_⟩
  · obtain ⟨manager, -, rfl⟩ := List.mem_map.1 hrow
    refine ⟨rfl, fun metric hmetric => ?_⟩
    rw [planShown_row toLowerCase hmetric, findPlanValue_manager]
    unfold rowReads
    by_cases hkind : metric.kind = .conversion
    · simp only [hkind, buildPlanFactTeam, buildPlanFactTargetRow, and_self, if_true]
    · simp only [hkind, buildPlanFactTeam, buildPlanFactTargetRow, false_and, if_false]
  · have hreads : rowReads toLowerCase (buildPlanFactTeam toLowerCase nameLE sources team groupId shipping items
      calendar)
        (buildPlanFactTeam toLowerCase nameLE sources team groupId shipping items calendar).total metric =
        isDirect toLowerCase metric .group (some groupId) (js "Итого " ++ teamName team) := by
      funext item
      exact if_neg fun h => by cases h.2
    rw [hreads]
    change planShown (buildPlanFactTargetRow ..) _ = _
    rw [planShown_row toLowerCase hmetric, findPlanValue_group]
    rfl

/-- Rows for the same target. -/
def SameTarget (row row' : PlanFactRow) : Prop :=
  row'.targetType = row.targetType ∧ row'.targetId = row.targetId ∧ row'.targetName = row.targetName

/-- A team before and after a change of items: the rows are for the same targets, and those that read no changed item
show the same plan. For the total that takes an item of its own or that no manager reads a changed item. -/
structure Undisturbed (changed items : List PlanItem) (team team' : PlanFactTeam) : Prop where
  key : team'.key = team.key
  groupId : team'.groupId = team.groupId
  rows : List.Forall₂ (fun row row' => SameTarget row row' ∧ ∀ metric ∈ PLAN_FACT_METRICS,
    (∀ item ∈ changed, rowReads toLowerCase team row metric item = false) →
    planShown row' metric.key = planShown row metric.key) team.rows team'.rows
  total : SameTarget team.total team'.total ∧ ∀ metric ∈ PLAN_FACT_METRICS,
    (∀ item ∈ changed, rowReads toLowerCase team team.total metric item = false) →
    (∃ item ∈ items, rowReads toLowerCase team team.total metric item = true) ∨
      (∀ row ∈ team.rows, ∀ item ∈ changed, rowReads toLowerCase team row metric item = false) →
    planShown team'.total metric.key = planShown team.total metric.key

theorem shownPlans_congr {metric : PlanFactMetric} {rows rows' : List PlanFactRow} (h : List.Forall₂ (fun row row' =>
    planShown row' metric.key = planShown row metric.key) rows rows') :
    shownPlans metric rows' = shownPlans metric rows := by
  unfold shownPlans
  induction h with
  | nil => rfl
  | @cons row row' rows rows' hrow _ ih =>
    change (row'.values.lookup metric.key).bind PlanFactPace.plan = (row.values.lookup metric.key).bind _ at hrow
    rw [List.filterMap_cons, List.filterMap_cons, hrow, ih]

/-- Teams that are built from items of a month before and after a change. -/
theorem buildPlanFactTeam_undisturbed (sources : Sources) (team : TeamKey) (groupId : String) (shipping : Shipping)
    {items items' changed : List PlanItem} (calendar : Calendar)
    (hfound : ∀ p : PlanItem → Bool, (∀ item ∈ changed, p item = false) → items'.find? p = items.find? p) :
    Undisturbed toLowerCase changed items
      (buildPlanFactTeam toLowerCase nameLE sources team groupId shipping items calendar)
      (buildPlanFactTeam toLowerCase nameLE sources team groupId shipping items' calendar) := by
  have hplans := buildPlanFactTeam_plans toLowerCase nameLE sources team groupId shipping items calendar
  have hplans' := buildPlanFactTeam_plans toLowerCase nameLE sources team groupId shipping items' calendar
  have hrows : List.Forall₂ (fun row row' => SameTarget row row' ∧ ∀ metric ∈ PLAN_FACT_METRICS,
      (∀ item ∈ changed, rowReads toLowerCase
        (buildPlanFactTeam toLowerCase nameLE sources team groupId shipping items calendar) row metric item = false) →
      planShown row' metric.key = planShown row metric.key)
      (buildPlanFactTeam toLowerCase nameLE sources team groupId shipping items calendar).rows
      (buildPlanFactTeam toLowerCase nameLE sources team groupId shipping items' calendar).rows := by
    refine List.forall₂_map_left_iff.2 (List.forall₂_map_right_iff.2 (List.forall₂_same.2 fun manager hmanager => ?_))
    refine ⟨⟨rfl, rfl, rfl⟩, fun metric hmetric hunread => ?_⟩
    rw [(hplans.row _ (List.mem_map_of_mem hmanager)).2 metric hmetric,
      (hplans'.row _ (List.mem_map_of_mem hmanager)).2 metric hmetric, ← hfound _ hunread]
    rfl
  refine ⟨rfl, rfl, hrows, ⟨rfl, rfl, rfl⟩, fun metric hmetric hunread hown => ?_⟩
  have hsame := hfound _ hunread
  rw [hplans.total.2 metric hmetric, hplans'.total.2 metric hmetric]
  have hreads : rowReads toLowerCase
      (buildPlanFactTeam toLowerCase nameLE sources team groupId shipping items' calendar)
      (buildPlanFactTeam toLowerCase nameLE sources team groupId shipping items' calendar).total metric =
    rowReads toLowerCase (buildPlanFactTeam toLowerCase nameLE sources team groupId shipping items calendar)
      (buildPlanFactTeam toLowerCase nameLE sources team groupId shipping items calendar).total metric := rfl
  rw [hreads, hsame]
  rcases hown with ⟨item, hitem, hreaditem⟩ | hmanagers
  · obtain ⟨own, hown⟩ := Option.isSome_iff_exists.1 (List.find?_isSome.2 ⟨item, hitem, hreaditem⟩)
    rw [hown]
    rfl
  · have hrowsPlan : rowsPlan metric
        (buildPlanFactTeam toLowerCase nameLE sources team groupId shipping items' calendar).rows =
        rowsPlan metric (buildPlanFactTeam toLowerCase nameLE sources team groupId shipping items calendar).rows := by
      unfold rowsPlan
      rw [shownPlans_congr ((List.forall₂_and_left _ _).2 ⟨hmanagers, hrows⟩ |>.imp fun row row' h =>
        h.2.2 metric hmetric h.1)]
    rw [hrowsPlan]
    rfl

/-! ## Reading what was written -/

/-- The page reads the plan set that the update is for: the items of the month before the update, and the plan set of
the same id after it. -/
structure ReadsWritten (calendar : Calendar) (db : PlanDatabase) (update : PlanFactUpdate)
    (before after : Option String) : Prop where
  before : monthItems calendar (chosenPlanSet db.planSets before) = monthItems calendar update.planSet
  after : (chosenPlanSet update.planSets after).map PlanSet.id = update.planSet.map PlanSet.id

theorem mem_of_chosenPlanSet {planSets : List PlanSet} {planSetId : Option String} {planSet : PlanSet}
    (h : chosenPlanSet planSets planSetId = some planSet) : planSet ∈ planSets := by
  unfold chosenPlanSet at h
  cases hid : planSetId.filter (· ≠ "") with
  | some id =>
    rw [hid] at h
    exact List.mem_of_find?_eq_some h
  | none =>
    rw [hid] at h
    exact mem_of_latestActive h

variable {calendar : Calendar} {metric : PlanFactMetric} {targetType : TargetType} {targetId : String}
  {value : Option ℚ} {update : PlanFactUpdate}

/-- The items of the month after an update. -/
theorem Changed.month (h : Changed calendar metric targetType targetId value update)
    (hmonth : calendar.monthStart ≤ calendar.monthEnd) {db : PlanDatabase} {before after : Option String}
    (hreads : ReadsWritten calendar db update before after) :
    ItemsAfter update (monthItems calendar update.planSet)
      (monthItems calendar (chosenPlanSet update.planSets after)) := by
  cases hset : update.planSet with
  | none =>
    have hnone : chosenPlanSet update.planSets after = none := by
      have hid := hreads.after
      rw [hset] at hid
      exact Option.map_eq_none_iff.1 hid
    have hitem : update.item = none := h.cleared (h.unset hset).1
    rw [hnone]
    refine ⟨fun _ _ => rfl, fun item hwritten => ?_, fun item hafter => ?_⟩
    · rw [hitem] at hwritten
      cases hwritten
    · cases hafter
  | some planSet =>
    have hid := hreads.after
    rw [hset] at hid
    obtain ⟨read, hread, hsame⟩ := Option.map_eq_some_iff.1 hid
    have hitems : itemsOf update.planSets planSet.id = read.items :=
      hsame ▸ itemsOf_of_mem h.ids (mem_of_chosenPlanSet hread)
    have hafter := h.after planSet hset
    rw [hitems] at hafter
    rw [hread]
    refine hafter.filter fun item hitem => ?_
    have hexact := h.exact item (List.mem_append_right _ (by rw [hitem]; exact List.mem_singleton.2 rfl))
    simp only [isExact, Bool.and_eq_true, decide_eq_true_eq] at hexact
    simp only [Bool.and_eq_true, decide_eq_true_eq]
    exact ⟨hexact.1.2.trans_le hmonth, hmonth.trans_eq hexact.2.symm⟩

/-- The row is for the target of a plan: it is the target's own, or that of a manager in the group of a conversion. -/
def IsTargetRow (metric : PlanFactMetric) (targetType : TargetType) (targetId : String) (team : PlanFactTeam)
    (row : PlanFactRow) : Prop :=
  team.key = metric.team ∧ (row.targetType = targetType ∧ row.targetId = some targetId ∨
    metric.kind = .conversion ∧ row.targetType = .manager ∧ team.groupId = targetId)

variable {toLowerCase} in
/-- The row of the target reads an item for exactly the target. -/
theorem rowReads_exact (hshared : metric.kind = .conversion → targetType = .group) {team : PlanFactTeam}
    {row : PlanFactRow} (hrow : IsTargetRow metric targetType targetId team row) {item : PlanItem}
    (hexact : isExact calendar metric targetType targetId item = true) :
    rowReads toLowerCase team row metric item = true := by
  simp only [isExact, Bool.and_eq_true, decide_eq_true_eq] at hexact
  obtain ⟨⟨⟨⟨hkey, htype⟩, hid⟩, -⟩, -⟩ := hexact
  unfold rowReads isDirect itemMatches
  rcases hrow.2 with ⟨hrowType, hrowId⟩ | ⟨hkind, hmanager, hgroup⟩
  · have hown : ¬ (metric.kind = .conversion ∧ row.targetType = .manager) := by
      rintro ⟨hkind, hmanager⟩
      rw [hrowType, hshared hkind] at hmanager
      cases hmanager
    rw [if_neg hown]
    simp [hkey, htype, hid, hrowType, hrowId]
  · rw [if_pos ⟨hkind, hmanager⟩]
    simp [hkey, htype, hid, hgroup, hshared hkind]

theorem find?_only {items : List PlanItem} {p : PlanItem → Bool} {item : PlanItem} (hmem : item ∈ items)
    (hp : p item = true) (honly : ∀ other ∈ items, p other = true → other = item) : items.find? p = some item := by
  obtain ⟨found, hfound⟩ := Option.isSome_iff_exists.1 (List.find?_isSome.2 ⟨item, hmem, hp⟩)
  rw [hfound, honly found (List.mem_of_find?_eq_some hfound) (List.find?_some hfound)]

section Found

variable {items items' : List PlanItem} (h : Changed calendar metric targetType targetId value update)
  (hafter : ItemsAfter update items items') {p : PlanItem → Bool}
  (hunshared : ∀ other ∈ items, p other = true → update.existing = some other)

include h hafter hunshared

/-- What a search for the target finds after a value was set. -/
theorem Changed.find?_written {number : ℚ} (hvalue : value = some number)
    (hp : ∀ item, isExact calendar metric targetType targetId item = true → p item = true) :
    (items'.find? p).map PlanItem.value = some (normalizePlanFactPlanValue metric number) := by
  obtain ⟨item, hitem, hnumber⟩ := h.written number hvalue
  have hexact := h.exact item (List.mem_append_right _ (by rw [hitem]; exact List.mem_singleton.2 rfl))
  rw [find?_only (hafter.written item hitem) (hp item hexact) fun other hother hpother => ?_, Option.map_some,
    hnumber]
  rcases hafter.kept other hother with hnew | ⟨hold, hne⟩
  · rw [hitem] at hnew
    exact (Option.some.inj hnew).symm
  · exact absurd (hunshared other hold hpother) hne

/-- What a search for the target finds after a clearing: nothing. -/
theorem Changed.find?_cleared (hvalue : value = none) : items'.find? p = none := by
  refine List.find?_eq_none.2 fun other hother hpother => ?_
  rcases hafter.kept other hother with hnew | ⟨hold, hne⟩
  · rw [h.cleared hvalue] at hnew
    cases hnew
  · exact hne (hunshared other hold hpother)

end Found

variable {toLowerCase} in
/-- The plan of a row in the metric of its team. -/
theorem PlansFrom.shown_row {items : List PlanItem} {team : PlanFactTeam} (h : PlansFrom toLowerCase items team)
    {row : PlanFactRow} (hrow : row ∈ team.total :: team.rows) (hmetric : metric ∈ PLAN_FACT_METRICS)
    (hteam : team.key = metric.team) :
    planShown row metric.key = shown metric (((items.find? (rowReads toLowerCase team row metric)).map
      PlanItem.value).or (if row.targetType = .group then rowsPlan metric team.rows else none)) := by
  rcases List.mem_cons.1 hrow with rfl | hrow
  · rw [h.total.2 metric hmetric, if_pos hteam.symm, if_pos h.total.1]
  · obtain ⟨htype, hplan⟩ := h.row row hrow
    rw [hplan metric hmetric, if_pos hteam.symm, htype, if_neg nofun, Option.or_none]

variable {toLowerCase nameLE} in
/-- The teams of the page are built from the items of the month. -/
theorem mem_teams {sources : Sources} {planSetId : Option String} {team : PlanFactTeam}
    (h : team ∈ (planFactOf toLowerCase nameLE sources planSetId calendar).teams) :
    ∃ key groupId, sources.refs key = some groupId ∧ team = buildPlanFactTeam toLowerCase nameLE sources key groupId
      (splitShipping calendar (monthShipping sources.shipping calendar))
      (monthItems calendar (chosenPlanSet sources.planSets planSetId)) calendar := by
  obtain ⟨key, -, hteam⟩ := List.mem_filterMap.1 h
  obtain ⟨groupId, hgroup, rfl⟩ := Option.map_eq_some_iff.1 hteam
  exact ⟨key, groupId, hgroup, rfl⟩

theorem forall₂_filterMap {α β γ : Type*} {R : β → γ → Prop} {f : α → Option β} {g : α → Option γ}
    (h : ∀ a, (f a = none ∧ g a = none) ∨ ∃ b c, f a = some b ∧ g a = some c ∧ R b c) (l : List α) :
    List.Forall₂ R (l.filterMap f) (l.filterMap g) := by
  induction l with
  | nil => exact .nil
  | cons a l ih =>
    rcases h a with ⟨hf, hg⟩ | ⟨b, c, hf, hg, hR⟩
    · rw [List.filterMap_cons_none hf, List.filterMap_cons_none hg]
      exact ih
    · rw [List.filterMap_cons_some hf, List.filterMap_cons_some hg]
      exact .cons hR ih

/-- **Plans written and read.** After an update the page of the month that reads the plan set of the update shows
the value at the rows of the target, rounded and without a zero, and after a clearing no plan but the sum of the rows
at a total: if no other item of the month is read there. Every row that reads no changed item shows the plan it did,
and so does a total that takes an item of its own or whose managers read no changed item. -/
theorem plan_written {offset : ℤ → ℤ} {now : ℤ} {fuel : ℕ} {isAdmin : Bool} {db : PlanDatabase} {rows : NewRows db}
    {body : PlanFactBody} (hupdate : updatePlanFact offset now isAdmin db rows body fuel = some (.ok update))
    {sources : Sources} {readBefore readAfter : Option String} {before after : PlanFactResult}
    (hbefore : planFact toLowerCase nameLE offset now { sources with planSets := db.planSets } readBefore body.month
      fuel = some before)
    (hafter : planFact toLowerCase nameLE offset now { sources with planSets := update.planSets } readAfter body.month
      fuel = some after)
    (hreads : ReadsWritten after.calendar db update readBefore readAfter) :
    ∃ metric targetType targetId value, planTarget body = .ok (metric, targetType, targetId) ∧
      planValue body.value = .ok value ∧
      (∀ team ∈ after.teams, ∀ row ∈ team.total :: team.rows, IsTargetRow metric targetType targetId team row →
        (∀ other ∈ monthItems after.calendar update.planSet, rowReads toLowerCase team row metric other = true →
          update.existing = some other) →
        (∀ number, value = some number → normalizePlanFactPlanValue metric number ≠ 0 →
          planShown row metric.key = some (roundPlanFactValue metric number)) ∧
        (value = none → planShown row metric.key =
          if row.targetType = .group then shown metric (rowsPlan metric team.rows) else none)) ∧
      List.Forall₂ (Undisturbed toLowerCase (changes update) (monthItems after.calendar update.planSet)) before.teams
        after.teams := by
  obtain ⟨calendar, hcalendar, hok⟩ := Option.map_eq_some_iff.1 hupdate
  have hbefore' : planFactOf toLowerCase nameLE { sources with planSets := db.planSets } readBefore calendar =
      before := by
    rw [planFact, hcalendar] at hbefore
    exact Option.some.inj hbefore
  have hafter' : planFactOf toLowerCase nameLE { sources with planSets := update.planSets } readAfter calendar =
      after := by
    rw [planFact, hcalendar] at hafter
    exact Option.some.inj hafter
  subst hbefore' hafter'
  change ReadsWritten calendar db update readBefore readAfter at hreads
  obtain ⟨metric, targetType, targetId, value, htarget, hvalue, hchanged⟩ := updatePlanFactOf_ok hok
  obtain ⟨hmetric, -, hshared⟩ := planTarget_ok htarget
  obtain ⟨-, hmonth, -⟩ := planFactCalendar_order hcalendar
  have hitems := hchanged.month hmonth hreads
  refine ⟨metric, targetType, targetId, value, htarget, hvalue, fun team hteam row hrow htargetRow hunshared => ?_,
    ?_⟩
  · obtain ⟨key, groupId, hgroup, rfl⟩ := mem_teams hteam
    have hplan := (buildPlanFactTeam_plans toLowerCase nameLE { sources with planSets := update.planSets } key groupId
      (splitShipping calendar (monthShipping sources.shipping calendar))
      (monthItems calendar (chosenPlanSet update.planSets readAfter)) calendar).shown_row hrow hmetric htargetRow.1
    refine ⟨fun number hnumber hne => ?_, fun hclear => ?_⟩
    · have hfound := hchanged.find?_written hitems hunshared hnumber fun item hexact =>
        rowReads_exact hshared htargetRow hexact
      rw [hplan, hfound, Option.some_or, shown, Option.filter_some, if_pos (decide_eq_true hne), Option.map_some,
        roundPlanFactValue_normalize]
    · rw [hplan, hchanged.find?_cleared hitems hunshared hclear, Option.map_none, Option.none_or]
      split_ifs
      · rfl
      · rfl
  · refine forall₂_filterMap (f := fun key => (sources.refs key).map fun groupId =>
      buildPlanFactTeam toLowerCase nameLE { sources with planSets := db.planSets } key groupId
        (splitShipping calendar (monthShipping sources.shipping calendar))
        (monthItems calendar (chosenPlanSet db.planSets readBefore)) calendar) (g := fun key =>
      (sources.refs key).map fun groupId =>
      buildPlanFactTeam toLowerCase nameLE { sources with planSets := update.planSets } key groupId
        (splitShipping calendar (monthShipping sources.shipping calendar))
        (monthItems calendar (chosenPlanSet update.planSets readAfter)) calendar) (fun key => ?_) _
    cases hgroup : sources.refs key with
    | none => exact .inl ⟨rfl, rfl⟩
    | some groupId =>
      refine .inr ⟨_, _, rfl, rfl, ?_⟩
      rw [hreads.before]
      exact buildPlanFactTeam_undisturbed toLowerCase nameLE sources key groupId _ calendar hitems.found

end Rows

/-! ## A plan of a manager -/

/-- A team with one manager and nothing in its reports. -/
def oneManager (planSets : List PlanSet) : Sources where
  planSets
  refs
    | .sales => some "group-sales"
    | .csm => none
  managers := fun _ => [⟨some "anna", js "Анна"⟩]
  compute := fun _ _ _ => emptyReport
  shipping := fun _ _ => ⟨[], "group-csm"⟩

/-- The plan set of 2026 without items. -/
def plansOf2026 : PlanSet := ⟨"plans", js "Планы 2026", some 2026, true, 0, []⟩

def databaseOf2026 : PlanDatabase where
  planSets := [plansOf2026]
  managerNames := fun id => if id = "anna" then some (js "Анна") else none
  groupNames := fun _ => none
  setIds := List.nodup_singleton _
  itemIds := by decide

/-- Ten payments in August 2026 for the manager. -/
def annaBody : PlanFactBody :=
  ⟨some "2026-08", some "sales_paid_count", some "MANAGER", some "anna", some (js "10"), some "plans"⟩

def annaItem : PlanItem where
  id := "item"
  periodType := "MONTH"
  periodStart := 1_785_531_600_000
  periodEnd := 1_788_209_999_999
  targetType := .manager
  targetId := some "anna"
  targetName := some (js "Анна")
  metricKey := "sales_paid_count"
  metricName := "Оплаты"
  value := 10
  unit := .number

def annaUpdate : PlanFactUpdate :=
  ⟨[{ plansOf2026 with items := [annaItem] }], some plansOf2026, none, some annaItem⟩

/-- The rows for the ids that the database makes. -/
def newRows : NewRows databaseOf2026 := ⟨"new-plans", "item", 1_788_166_800_000, by decide⟩

theorem annaUpdate_accepted : updatePlanFact
    (fun _ => 3 * CivilDate.hour) 1_788_166_800_000 true databaseOf2026 newRows
    annaBody 40 = some (.ok annaUpdate) := by
  decide +kernel

theorem plan_written_sample : ∃ after, planFact id (fun _ _ => True) (fun _ => 3 * CivilDate.hour) 1_788_166_800_000
    (oneManager annaUpdate.planSets) (some "plans") annaBody.month 40 = some after ∧
    ∀ team ∈ after.teams, ∀ row ∈ team.total :: team.rows, team.key = .sales → row.targetType = .manager →
      row.targetId = some "anna" → planShown row "sales_paid_count" = some 10 := by
  obtain ⟨calendar, hcalendar⟩ : ∃ calendar, planFactCalendar (fun _ => 3 * CivilDate.hour)
      (parsePlanFactMonth (fun _ => 3 * CivilDate.hour) 1_788_166_800_000 annaBody.month) 1_788_166_800_000 40 =
        some calendar := Option.isSome_iff_exists.1 (by decide +kernel)
  have hread : ∀ planSets, planFact id (fun _ _ => True) (fun _ => 3 * CivilDate.hour) 1_788_166_800_000
      { oneManager [] with planSets := planSets } (some "plans") annaBody.month 40 =
        some (planFactOf id (fun _ _ => True) { oneManager [] with planSets := planSets } (some "plans") calendar) :=
      fun planSets => by
    rw [planFact, hcalendar, Option.map_some]
  have hempty : monthItems calendar (some plansOf2026) = [] := rfl
  have hreads : ReadsWritten calendar databaseOf2026 annaUpdate (some "plans") (some "plans") := by
    refine ⟨congrArg (monthItems calendar) ?_, ?_⟩
    · decide +kernel
    · decide +kernel
  refine ⟨_, hread annaUpdate.planSets, fun team hteam row hrow hkey htype hid => ?_⟩
  obtain ⟨metric, targetType, targetId, value, htarget, hvalue, hset, -⟩ := plan_written id (fun _ _ => True)
    annaUpdate_accepted (hread databaseOf2026.planSets) (hread annaUpdate.planSets) hreads
  have hbody : planTarget annaBody = .ok (⟨"sales_paid_count", "Оплаты", .number, .sales, .additive⟩, .manager,
    "anna") :=
    by decide +kernel
  have hten : planValue annaBody.value = .ok (some 10) := by decide +kernel
  rw [hbody] at htarget
  rw [hten] at hvalue
  cases htarget
  cases hvalue
  have hunshared : ∀ other ∈ monthItems calendar (some plansOf2026), rowReads id team row
      ⟨"sales_paid_count", "Оплаты", .number, .sales, .additive⟩ other = true → none = some other := by
    rw [hempty]
    exact fun other hother => absurd hother List.not_mem_nil
  have hshown := (hset team hteam row hrow ⟨hkey, .inl ⟨htype, hid⟩⟩ hunshared).1 10 rfl
  rw [show normalizePlanFactPlanValue ⟨"sales_paid_count", "Оплаты", .number, .sales, .additive⟩ 10 = 10 by
    decide +kernel, show roundPlanFactValue ⟨"sales_paid_count", "Оплаты", .number, .sales, .additive⟩ 10 = 10 by
    decide +kernel] at hshown
  exact hshown (by norm_num)

/-- The plans that the page shows for a metric: of the totals, then of the managers. -/
def plansShown (result : PlanFactResult) (key : String) : List (List (Option ℚ)) :=
  result.teams.map fun team => (team.total :: team.rows).map fun row => planShown row key

/-- A plan of ten for the only manager: the total of the group, another target, had no plan and shows ten. -/
theorem plan_written_fails :
    updatePlanFact (fun _ => 3 * CivilDate.hour) 1_788_166_800_000 true databaseOf2026 newRows annaBody 40 =
      some (.ok annaUpdate) ∧
    [databaseOf2026.planSets, annaUpdate.planSets].map (fun planSets =>
      (planFact id (fun _ _ => True) (fun _ => 3 * CivilDate.hour) 1_788_166_800_000 (oneManager planSets) none
        annaBody.month 40).map fun result => plansShown result "sales_paid_count") =
      [some [[none, none]], some [[some 10, some 10]]] := by
  refine ⟨annaUpdate_accepted, ?_⟩
  decide +kernel

end AmoAnalytics.Platform.PlanFact
