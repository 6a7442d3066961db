import AmoAnalytics.Lib.CellSum
import AmoAnalytics.Platform.PlanFactPace

/-!
# Shipments in the plan and its facts

Every shipment of the month goes to one of the two teams or to the block of those without an owner. In the reports of
a team each pass of the loop adds the shipment to its owner's row and to the summary, so the total of the team is the
sum of its rows, and the month is the days before today and today. The shown values are these sums rounded to cents.
-/

namespace AmoAnalytics.Platform.PlanFact

open FirstOfEach
open Reports.RevenueForecast (toFixed2)

/-! ## What a shipment adds -/

/-- One of the two metrics that count shipments. -/
def IsShipped (team : TeamKey) (key : String) : Prop := key = shippedCount team ∨ key = shippedAmount team

/-- What a shipment adds to the metric. -/
def shipmentWeight (team : TeamKey) (key : String) (entry : ShipmentEntry) : ℚ :=
  if key = shippedCount team then 1 else entry.deal.amount.getD 0

/-- The entry is counted for the target: for the team as a whole, or for its owner's row. -/
def countsFor (team : TeamKey) (csmGroupId : String) (targetId : Option String) (targetType : TargetType)
    (entry : ShipmentEntry) : Bool :=
  countedIn team csmGroupId entry && (targetType = .group || entry.deal.responsibleId = targetId)

/-- The shipments of a target before they are rounded. -/
def shippedFor (team : TeamKey) (csmGroupId key : String) (targetId : Option String) (targetType : TargetType)
    (entries : List ShipmentEntry) : ℚ :=
  ((entries.filter (countsFor team csmGroupId targetId targetType)).map (shipmentWeight team key)).sum

variable {team : TeamKey} {csmGroupId key : String}

theorem countShipment_shipped (h : IsShipped team key) (entry : ShipmentEntry) (metrics : Metrics) :
    countShipment team (entry.deal.amount.getD 0) metrics key =
      (metrics key).map (· + shipmentWeight team key entry) := by
  unfold countShipment shipmentWeight
  split_ifs with hcount hamount
  · rfl
  · rfl
  · exact absurd h (not_or.2 ⟨hcount, hamount⟩)

theorem mapMetrics_shipped (h : IsShipped team key) (source : Metrics) : mapMetrics team source key = some 0 :=
    if_pos h

theorem shippedFor_append (targetId : Option String) (targetType : TargetType) (entries rest : List ShipmentEntry) :
    shippedFor team csmGroupId key targetId targetType (entries ++ rest) =
      shippedFor team csmGroupId key targetId targetType entries +
        shippedFor team csmGroupId key targetId targetType rest := by
  rw [shippedFor, List.filter_append, List.map_append, List.sum_append]
  rfl

theorem shippedFor_singleton (targetId : Option String) (targetType : TargetType) (entry : ShipmentEntry) :
    shippedFor team csmGroupId key targetId targetType [entry] =
      if countsFor team csmGroupId targetId targetType entry then shipmentWeight team key entry else 0 := by
  unfold shippedFor
  cases hcounts : countsFor team csmGroupId targetId targetType entry <;> simp [hcounts]

/-! ## The loop over the shipments -/

/-- The report holds the shipments: each row those of its owner, the summary all of the team, and no owner is
missing. -/
structure HoldsShipments (team : TeamKey) (csmGroupId key : String) (entries : List ShipmentEntry) (report : Report) :
    Prop where
  summary : report.summary key = some (shippedFor team csmGroupId key none .group entries)
  rows : ∀ row ∈ report.rows, row.metrics key = some (shippedFor team csmGroupId key row.groupId .manager entries)
  owners : ∀ entry ∈ entries, countedIn team csmGroupId entry = true →
    entry.deal.responsibleId ∈ report.rows.map ReportRow.groupId

theorem HoldsShipments.empty (h : IsShipped team key) (report : Report) :
    HoldsShipments team csmGroupId key [] (mapReport team report) where
  summary := mapMetrics_shipped h _
  rows := by
    intro row hrow
    obtain ⟨row', -, rfl⟩ := List.mem_map.1 hrow
    exact mapMetrics_shipped h _
  owners := fun _ hentry => absurd hentry List.not_mem_nil

theorem mem_withRow {deal : ShippedDeal} {rows : List ReportRow} {row : ReportRow}
    (h : row ∈ withRow team deal rows) :
    row ∈ rows ∨ (row = shipmentRow team deal ∧ deal.responsibleId ∉ rows.map ReportRow.groupId) := by
  unfold withRow at h
  split_ifs at h with hmem
  · exact .inl h
  · exact (List.mem_append.1 h).imp_right fun hnew => ⟨List.mem_singleton.1 hnew, hmem⟩

theorem mem_keys_withRow {deal : ShippedDeal} {rows : List ReportRow} {id : Option String} :
    id ∈ (withRow team deal rows).map ReportRow.groupId ↔
      id ∈ rows.map ReportRow.groupId ∨ id = deal.responsibleId := by
  unfold withRow
  split_ifs with h
  · exact ⟨.inl, fun hid => hid.elim (fun hmem => hmem) fun heq => heq ▸ h⟩
  · rw [List.map_append, List.mem_append, List.map_singleton, List.mem_singleton]
    rfl

theorem countsFor_manager {entry : ShipmentEntry} (h : countedIn team csmGroupId entry = true) (id : Option String) :
    countsFor team csmGroupId id .manager entry = true ↔ id = entry.deal.responsibleId := by
  simp [countsFor, h, eq_comm]

theorem countsFor_group (entry : ShipmentEntry) (id : Option String) :
    countsFor team csmGroupId id .group entry = countedIn team csmGroupId entry := by
  simp [countsFor]

/-- The total of a team does not depend on the target. -/
theorem shippedFor_group (id id' : Option String) (entries : List ShipmentEntry) :
    shippedFor team csmGroupId key id .group entries = shippedFor team csmGroupId key id' .group entries := by
  have hsame : countsFor team csmGroupId id .group = countsFor team csmGroupId id' .group :=
    funext fun entry => by rw [countsFor_group, countsFor_group]
  rw [shippedFor, shippedFor, hsame]

theorem countsFor_of_not_counted {entry : ShipmentEntry} (h : countedIn team csmGroupId entry = false)
    (id : Option String) (targetType : TargetType) : countsFor team csmGroupId id targetType entry = false := by
  simp [countsFor, h]

/-- An owner without a row has no shipments. -/
theorem HoldsShipments.missing {entries : List ShipmentEntry} {report : Report}
    (h : HoldsShipments team csmGroupId key entries report) {id : Option String}
    (hid : id ∉ report.rows.map ReportRow.groupId) : shippedFor team csmGroupId key id .manager entries = 0 := by
  have hnil : entries.filter (countsFor team csmGroupId id .manager) = [] := by
    refine List.filter_eq_nil_iff.2 fun entry hentry hcounts => hid ?_
    have hcounted : countedIn team csmGroupId entry = true := (Bool.and_eq_true_iff.1 hcounts).1
    exact (countsFor_manager hcounted id).1 hcounts ▸ h.owners entry hentry hcounted
  rw [shippedFor, hnil, List.map_nil, List.sum_nil]

/-- One pass of the loop. -/
theorem HoldsShipments.step (hkey : IsShipped team key) {entries : List ShipmentEntry} {report : Report}
    (h : HoldsShipments team csmGroupId key entries report) (entry : ShipmentEntry) :
    HoldsShipments team csmGroupId key (entries ++ [entry]) (addShipment team csmGroupId report entry) := by
  cases hcounted : countedIn team csmGroupId entry with
  | false =>
    have hsame : ∀ id targetType, shippedFor team csmGroupId key id targetType (entries ++ [entry]) =
        shippedFor team csmGroupId key id targetType entries := fun id targetType => by
      rw [shippedFor_append, shippedFor_singleton, countsFor_of_not_counted hcounted, if_neg Bool.false_ne_true,
        add_zero]
    rw [addShipment, hcounted, if_neg Bool.false_ne_true]
    refine ⟨by rw [hsame]; exact h.summary, fun row hrow => by rw [hsame]; exact h.rows row hrow,
      fun entry' hentry' hcounted' => ?_⟩
    rcases List.mem_append.1 hentry' with hold | hnew
    · exact h.owners entry' hold hcounted'
    · rw [List.mem_singleton.1 hnew, hcounted] at hcounted'
      cases hcounted'
  | true =>
    rw [addShipment, if_pos hcounted]
    refine ⟨?_, fun row hrow => ?_, fun entry' hentry' hcounted' => ?_⟩
    · dsimp only
      rw [countShipment_shipped hkey, h.summary, Option.map_some, shippedFor_append, shippedFor_singleton,
        countsFor_group, if_pos hcounted]
    · obtain ⟨row', hrow', rfl⟩ := List.mem_map.1 hrow
      have hbefore : row'.metrics key = some (shippedFor team csmGroupId key row'.groupId .manager entries) := by
        rcases mem_withRow hrow' with hold | ⟨rfl, hnew⟩
        · exact h.rows row' hold
        · rw [show (shipmentRow team entry.deal).groupId = entry.deal.responsibleId from rfl, h.missing hnew]
          exact mapMetrics_shipped hkey _
      rw [countInRow_groupId, shippedFor_append, shippedFor_singleton]
      by_cases howner : row'.groupId = entry.deal.responsibleId
      · rw [countInRow, if_pos howner, if_pos ((countsFor_manager hcounted _).2 howner)]
        dsimp only
        rw [countShipment_shipped hkey, hbefore, Option.map_some]
      · rw [countInRow, if_neg howner, if_neg (fun hcounts => howner ((countsFor_manager hcounted _).1 hcounts)),
          add_zero, hbefore]
    · have hkeys : ((withRow team entry.deal report.rows).map (countInRow team entry.deal)).map ReportRow.groupId =
          (withRow team entry.deal report.rows).map ReportRow.groupId := by
        rw [List.map_map]
        exact congrArg (List.map · _) (funext (countInRow_groupId team entry.deal))
      rw [hkeys, mem_keys_withRow]
      rcases List.mem_append.1 hentry' with hold | hnew
      · exact .inl (h.owners entry' hold hcounted')
      · exact .inr (congrArg (fun entry : ShipmentEntry => entry.deal.responsibleId) (List.mem_singleton.1 hnew))

/-- The whole loop. -/
theorem HoldsShipments.run (hkey : IsShipped team key) {counted : List ShipmentEntry} {report : Report}
    (h : HoldsShipments team csmGroupId key counted report) (entries : List ShipmentEntry) :
    HoldsShipments team csmGroupId key (counted ++ entries)
      (entries.foldl (addShipment team csmGroupId) report) := by
  induction entries generalizing counted report with
  | nil =>
    rw [List.append_nil]
    exact h
  | cons entry entries ih =>
    have hnext := ih (h.step hkey entry)
    rwa [List.append_assoc, List.singleton_append] at hnext

/-! ## The facts that are shown -/

theorem shipped_additive (h : IsShipped team key) :
    (PLAN_FACT_METRICS.find? (·.key = key)).map PlanFactMetric.kind = some .additive := by
  rcases h with rfl | rfl <;> cases team <;> decide

/-- The value of a target in a report with the shipments is their sum, rounded to cents. -/
theorem HoldsShipments.value (hkey : IsShipped team key) {entries : List ShipmentEntry} {report : Report}
    (h : HoldsShipments team csmGroupId key entries report) (id : Option String) {targetType : TargetType}
    (htype : targetType = .manager ∨ targetType = .group) :
    reportMetricValue (some report) id targetType key =
      some (roundMetric (shippedFor team csmGroupId key id targetType entries)) := by
  rcases htype with rfl | rfl
  · rw [reportMetricValue, Option.bind_some]
    dsimp only
    cases hrow : report.rows.find? (·.groupId = id) with
    | none =>
      have hid : id ∉ report.rows.map ReportRow.groupId := fun hmem => by
        obtain ⟨row, hmem, heq⟩ := List.mem_map.1 hmem
        exact absurd (decide_eq_true heq) (List.find?_eq_none.1 hrow row hmem)
      dsimp only
      rw [if_pos (shipped_additive hkey), h.missing hid, roundMetric, toFixed2_zero]
    | some row =>
      have heq : row.groupId = id := of_decide_eq_true (List.find?_some hrow :)
      dsimp only
      rw [h.rows row (List.mem_of_find?_eq_some hrow), Option.map_some, heq]
  · show (report.summary key).map roundMetric = _
    rw [h.summary, shippedFor_group id none]
    rfl

/-- What a cut of the entries leaves on both sides. -/
theorem shippedFor_split (id : Option String) (targetType : TargetType) (p : ShipmentEntry → Bool)
    (entries : List ShipmentEntry) : shippedFor team csmGroupId key id targetType entries =
      shippedFor team csmGroupId key id targetType (entries.filter (!p ·)) +
        shippedFor team csmGroupId key id targetType (entries.filter p) := by
  induction entries with
  | nil => exact (add_zero (0 : ℚ)).symm
  | cons entry entries ih =>
    rw [← List.singleton_append, shippedFor_append, ih, List.filter_append, List.filter_append, shippedFor_append,
      shippedFor_append, List.filter_singleton, List.filter_singleton]
    have hnil : shippedFor team csmGroupId key id targetType [] = 0 := rfl
    cases p entry
    · rw [Bool.not_false, cond_true, cond_false, hnil]
      ring
    · rw [Bool.not_true, cond_true, cond_false, hnil]
      ring

/-! ## The reports of a team -/

section Reports

variable {compute : TeamKey → ℤ → ℤ → Report} {shipping : ActualShipping} {calendar : Calendar}

theorem contract_holds (hkey : IsShipped team key) (compute : TeamKey → ℤ → ℤ → Report) (shipping : ActualShipping)
    {dateFrom dateTo : ℤ} (h : dateFrom ≤ dateTo) :
    ∃ report, computePlanFactContract compute team (some shipping) dateFrom dateTo = some report ∧
      HoldsShipments team shipping.csmGroupId key shipping.entries report := by
  have hempty : HoldsShipments team shipping.csmGroupId key [] (mapReport team (compute team dateFrom dateTo)) :=
    HoldsShipments.empty hkey _
  exact ⟨_, if_neg h.not_gt, hempty.run hkey shipping.entries⟩

/-- The fact of the month. -/
theorem targetFacts_month (hkey : IsShipped team key) (hbegun : calendar.monthStart ≤ periodEnd calendar)
    (id : Option String) {targetType : TargetType} (htype : targetType = .manager ∨ targetType = .group) :
    (targetFacts (teamReports compute team (splitShipping calendar
      (some shipping)) calendar) id targetType key).month =
      some (roundMetric (shippedFor team shipping.csmGroupId key id targetType shipping.entries)) := by
  obtain ⟨report, hreport, hholds⟩ := contract_holds hkey compute shipping hbegun
  have hmonth : (teamReports compute team (splitShipping calendar (some shipping)) calendar).month = some report :=
    hreport
  rw [targetFacts, hmonth]
  exact hholds.value hkey id htype

section Facts

variable {reports : TeamReports}

theorem targetFacts_before {report : Report} (h : reports.beforeToday = some report) (id : Option String)
    (targetType : TargetType) (key : String) :
    (targetFacts reports id targetType key).beforeToday = reportMetricValue (some report) id targetType key := by
  unfold targetFacts
  dsimp only
  rw [h]

theorem targetFacts_firstDay (h : reports.beforeToday = none) (id : Option String) (targetType : TargetType)
    (key : String) : (targetFacts reports id targetType key).beforeToday =
      some (max ((targetFacts reports id targetType key).month.getD 0 -
        (targetFacts reports id targetType key).today.getD 0) 0) := by
  unfold targetFacts
  dsimp only
  rw [h]

end Facts

/-- The entries of the current day. -/
def isToday (calendar : Calendar) (entry : ShipmentEntry) : Bool := calendar.todayStart ≤ entry.shippedAt

/-- In the current month the facts of the day and of the days before it. -/
theorem targetFacts_days (hkey : IsShipped team key) (hcurrent : calendar.isCurrentMonth = true)
    (hbegun : calendar.monthStart ≤ periodEnd calendar) (htoday : calendar.todayStart ≤ calendar.todayEnd)
    (hentries : ∀ entry ∈ shipping.entries, calendar.monthStart ≤ entry.shippedAt) (id : Option String)
    {targetType : TargetType} (htype : targetType = .manager ∨ targetType = .group) :
    let facts := targetFacts (teamReports compute team (splitShipping calendar
      (some shipping)) calendar) id targetType key
    facts.today = some (roundMetric
        (shippedFor team shipping.csmGroupId key id targetType (shipping.entries.filter (isToday calendar)))) ∧
      facts.beforeToday = some (roundMetric
        (shippedFor team shipping.csmGroupId key id targetType (shipping.entries.filter (!isToday calendar ·)))) := by
  intro facts
  have hmonth : facts.month =
      some (roundMetric (shippedFor team shipping.csmGroupId key id targetType shipping.entries)) :=
    targetFacts_month hkey hbegun id htype
  obtain ⟨today, htodayReport, htodayHolds⟩ := contract_holds hkey compute
    ⟨shipping.entries.filter (isToday calendar), shipping.csmGroupId⟩ htoday
  have hreport : (teamReports compute team (splitShipping calendar (some shipping)) calendar).today = some today := by
    rw [teamReports, splitShipping]
    simp only [if_pos hcurrent, Option.map_some]
    exact htodayReport
  have hday : facts.today = some (roundMetric
      (shippedFor team shipping.csmGroupId key id targetType (shipping.entries.filter (isToday calendar)))) := by
    show (teamReports compute team (splitShipping calendar (some shipping)) calendar).today.bind _ = _
    rw [hreport]
    exact htodayHolds.value hkey id htype
  have hcut : (fun entry : ShipmentEntry => decide (entry.shippedAt < calendar.todayStart)) =
      fun entry => !isToday calendar entry := funext fun entry => Bool.eq_iff_iff.2 (by simp [isToday])
  refine ⟨hday, ?_⟩
  by_cases hfirst : calendar.monthStart ≤ calendar.todayStart - 1
  · obtain ⟨before, hbeforeReport, hbeforeHolds⟩ := contract_holds hkey compute
      ⟨shipping.entries.filter (!isToday calendar ·), shipping.csmGroupId⟩ hfirst
    have hbefore : (teamReports compute team (splitShipping calendar (some shipping)) calendar).beforeToday =
        some before := by
      rw [teamReports, splitShipping]
      simp only [if_pos hcurrent, Option.map_some, hcut]
      exact hbeforeReport
    exact (targetFacts_before hbefore id targetType key).trans (hbeforeHolds.value hkey id htype)
  · -- On the first day of the month nothing lies before it.
    have hnone : (teamReports compute team (splitShipping calendar (some shipping)) calendar).beforeToday = none := by
      rw [teamReports]
      simp only [if_pos hcurrent]
      exact if_pos (not_le.1 hfirst)
    have hall : shipping.entries.filter (!isToday calendar ·) = [] := by
      refine List.filter_eq_nil_iff.2 fun entry hentry hlate => ?_
      have hstart := hentries entry hentry
      have hearly : ¬ calendar.todayStart ≤ entry.shippedAt := by simpa [isToday] using hlate
      omega
    have hsplit : shippedFor team shipping.csmGroupId key id targetType shipping.entries = _ :=
      shippedFor_split id targetType (isToday calendar) shipping.entries
    have hzero : shippedFor team shipping.csmGroupId key id targetType [] = 0 := rfl
    rw [hall, hzero, zero_add] at hsplit
    refine (targetFacts_firstDay hnone id targetType key).trans ?_
    change some (max (facts.month.getD 0 - facts.today.getD 0) 0) = _
    rw [hall, hzero, hday, show facts.month = _ from hmonth, hsplit, Option.getD_some, sub_self, max_self,
      roundMetric, toFixed2_zero]

/-- Every owner of a shipment of the team has a row. -/
theorem owner_mem (hkey : IsShipped team key) (hbegun : calendar.monthStart ≤ periodEnd calendar)
    (managers : List Manager) {entry : ShipmentEntry} (hentry : entry ∈ shipping.entries)
    (hcounted : countedIn team shipping.csmGroupId entry = true) :
    entry.deal.responsibleId ∈ (allManagers managers
      (teamReports compute team (splitShipping calendar (some shipping)) calendar)).map Manager.id := by
  obtain ⟨report, hreport, hholds⟩ := contract_holds hkey compute shipping hbegun
  have hmonth : (teamReports compute team (splitShipping calendar (some shipping)) calendar).month = some report :=
    hreport
  obtain ⟨row, hrow, howner⟩ := List.mem_map.1 (hholds.owners entry hentry hcounted)
  refine mem_keys_firstOfEach.2 (List.mem_map.2 ⟨⟨row.groupId, row.groupName⟩, ?_, howner⟩)
  refine List.mem_append_left _ (List.mem_append_left _ (List.mem_append_right _ ?_))
  rw [hmonth]
  exact List.mem_map_of_mem hrow

end Reports

/-- Owners that cover the shipments of the team, each once, share its total. -/
theorem sum_owners {entries : List ShipmentEntry} {ids : List (Option String)} (hnodup : ids.Nodup)
    (hcover : ∀ entry ∈ entries, countedIn team csmGroupId entry = true → entry.deal.responsibleId ∈ ids)
    (id : Option String) :
    (ids.map fun id => shippedFor team csmGroupId key id .manager entries).sum =
      shippedFor team csmGroupId key id .group entries := by
  have hcovered : ∀ entry ∈ entries, (countedIn team csmGroupId entry = true ↔
      ∃ id ∈ ids.toFinset, countsFor team csmGroupId id .manager entry = true) := by
    intro entry hentry
    constructor
    · intro hcounted
      exact ⟨_, List.mem_toFinset.2 (hcover entry hentry hcounted), (countsFor_manager hcounted _).2 rfl⟩
    · rintro ⟨id, -, hcounts⟩
      exact (Bool.and_eq_true_iff.1 hcounts).1
  have hunique : ∀ id ∈ ids.toFinset, ∀ id' ∈ ids.toFinset, ∀ entry ∈ entries,
      countsFor team csmGroupId id .manager entry = true →
        countsFor team csmGroupId id' .manager entry = true → id = id' := by
    intro id _ id' _ entry _ h h'
    have hcounted := (Bool.and_eq_true_iff.1 h).1
    exact ((countsFor_manager hcounted id).1 h).trans ((countsFor_manager hcounted id').1 h').symm
  have hcells := sum_cells hcovered hunique (shipmentWeight team key)
  rw [List.sum_toFinset _ hnodup] at hcells
  have hwhole : countsFor team csmGroupId id .group = countedIn team csmGroupId :=
    funext fun entry => countsFor_group entry id
  simp only [shippedFor, hwhole]
  simpa only [Bool.decide_eq_true] using hcells

/-! ## The rows that are shown -/

/-- The fact of the month that a row shows. -/
def monthFact (row : PlanFactRow) (key : String) : Option ℚ := (row.values.lookup key).bind PlanFactPace.factMonth

/-- The fact of the current day that a row shows. -/
def todayFact (row : PlanFactRow) (key : String) : Option ℚ := (row.values.lookup key).bind PlanFactPace.factToday

theorem planFactPace_facts (metric : PlanFactMetric) (plan factMonth factToday before : Option ℚ)
    (calendar : Calendar) :
    (planFactPace metric plan factMonth factToday before calendar).factMonth = factMonth ∧
      (planFactPace metric plan factMonth factToday before calendar).factToday = factToday := by
  unfold planFactPace
  split
  · exact ⟨rfl, rfl⟩
  · split_ifs <;> exact ⟨rfl, rfl⟩

theorem lookup_values {β : Type*} (g : PlanFactMetric → β) (metrics : List PlanFactMetric) (key : String) :
    (metrics.map fun metric => (metric.key, g metric)).lookup key = (metrics.find? (·.key = key)).map g := by
  induction metrics with
  | nil => rfl
  | cons metric metrics ih =>
    rw [List.map_cons, List.lookup_cons, List.find?_cons]
    by_cases h : metric.key = key
    · rw [decide_eq_true h, beq_iff_eq.2 h.symm]
      rfl
    · rw [decide_eq_false h, beq_eq_false_iff_ne.2 (Ne.symm h), ih]

theorem exists_shippedMetric (h : IsShipped team key) :
    ∃ metric, (PLAN_FACT_METRICS.filter (·.team = team)).find? (·.key = key) = some metric := by
  rcases h with rfl | rfl <;> cases team <;> exact Option.isSome_iff_exists.1 (by decide)

section Rows

variable (toLowerCase : JsString → JsString) (nameLE : JsString → JsString → Prop) [DecidableRel nameLE]

/-- A row shows the facts of its target. -/
theorem row_facts (hkey : IsShipped team key) (targetType : TargetType) (targetId : Option String)
    (targetName : JsString)
    (groupTarget : GroupTarget) (planItems : List PlanItem) (calendar : Calendar) (reports : TeamReports)
    (managerRows : Option (List PlanFactRow)) :
    let row := buildPlanFactTargetRow toLowerCase targetType targetId targetName groupTarget
      (PLAN_FACT_METRICS.filter (·.team = team)) planItems calendar reports managerRows
    monthFact row key = (targetFacts reports targetId targetType key).month ∧
      todayFact row key = (targetFacts reports targetId targetType key).today := by
  intro row
  obtain ⟨metric, hmetric⟩ := exists_shippedMetric hkey
  have hname : metric.key = key := of_decide_eq_true (List.find?_some hmetric :)
  unfold monthFact todayFact
  simp only [row, buildPlanFactTargetRow, lookup_values, hmetric, Option.map_some, Option.bind_some, hname]
  exact planFactPace_facts _ _ _ _ _ _

/-! ## Conservation -/

/-- The facts that the pace of a row is built from. -/
def rowFacts (sources : Sources) (calendar : Calendar) (shipping : ActualShipping) (team : PlanFactTeam)
    (row : PlanFactRow) (key : String) : Facts :=
  targetFacts (teamReports sources.compute team.key (splitShipping calendar (some shipping)) calendar) row.targetId
    row.targetType key

/-- The shipments of a row before they are rounded. -/
def rowShipped (shipping : ActualShipping) (team : PlanFactTeam) (key : String) (entries : List ShipmentEntry)
    (row : PlanFactRow) : ℚ :=
  shippedFor team.key shipping.csmGroupId key row.targetId row.targetType entries

/-- A team conserves the shipments of the month in a metric that counts them. -/
structure Conserves (sources : Sources) (calendar : Calendar) (shipping : ActualShipping) (team : PlanFactTeam)
    (key : String) : Prop where
  /-- Rows and total show their shipments, rounded. -/
  shown : ∀ row ∈ team.total :: team.rows,
    monthFact row key = some (roundMetric (rowShipped shipping team key shipping.entries row))
  /-- The total holds every shipment that is counted for the team. -/
  total : rowShipped shipping team key shipping.entries team.total =
    ((shipping.entries.filter (countedIn team.key shipping.csmGroupId)).map (shipmentWeight team.key key)).sum
  /-- The rows share the total. -/
  rows : (team.rows.map (rowShipped shipping team key shipping.entries)).sum =
    rowShipped shipping team key shipping.entries team.total
  /-- In the current month the days before the current day and that day share the month. -/
  days : calendar.isCurrentMonth = true → ∀ row ∈ team.total :: team.rows,
    todayFact row key = some (roundMetric (rowShipped shipping team key (shipping.entries.filter
      (isToday calendar)) row)) ∧
    (rowFacts sources calendar shipping team row key).beforeToday =
      some (roundMetric (rowShipped shipping team key (shipping.entries.filter (!isToday calendar ·)) row)) ∧
    rowShipped shipping team key shipping.entries row =
      rowShipped shipping team key (shipping.entries.filter (!isToday calendar ·)) row +
        rowShipped shipping team key (shipping.entries.filter (isToday calendar)) row

/-- The rows of a team and its total, by their targets. -/
theorem mem_rows_buildPlanFactTeam {sources : Sources} {team : TeamKey} {groupId : String} {shipping : Shipping}
    {planItems : List PlanItem} {calendar : Calendar} {row : PlanFactRow}
    (h : row ∈ (buildPlanFactTeam toLowerCase nameLE sources team groupId shipping planItems calendar).total ::
      (buildPlanFactTeam toLowerCase nameLE sources team groupId shipping planItems calendar).rows) :
    (row.targetType = .manager ∨ row.targetType = .group) ∧ ∀ key, IsShipped team key →
      monthFact row key = (targetFacts (teamReports sources.compute team shipping calendar) row.targetId
        row.targetType
        key).month ∧
      todayFact row key = (targetFacts (teamReports sources.compute team shipping calendar) row.targetId
        row.targetType
        key).today := by
  rcases List.mem_cons.1 h with rfl | h
  · exact ⟨.inr rfl, fun key hkey => row_facts toLowerCase hkey _ _ _ _ _ _ _ _⟩
  · obtain ⟨manager, -, rfl⟩ := List.mem_map.1 h
    exact ⟨.inl rfl, fun key hkey => row_facts toLowerCase hkey _ _ _ _ _ _ _ _⟩

theorem buildPlanFactTeam_conserves {sources : Sources} {groupId : String} {shipping : ActualShipping}
    {planItems : List PlanItem} {calendar : Calendar} (hkey : IsShipped team key)
    (hbegun : calendar.monthStart ≤ periodEnd calendar) (htoday : calendar.todayStart ≤ calendar.todayEnd)
    (hentries : ∀ entry ∈ shipping.entries, calendar.monthStart ≤ entry.shippedAt) :
    Conserves sources calendar shipping (buildPlanFactTeam toLowerCase nameLE sources team groupId
      (splitShipping calendar (some shipping)) planItems calendar) key where
  shown := by
    intro row hrow
    obtain ⟨htype, hfacts⟩ := mem_rows_buildPlanFactTeam toLowerCase nameLE hrow
    rw [(hfacts key hkey).1]
    exact targetFacts_month hkey hbegun _ htype
  total := by
    have hwhole : countsFor team shipping.csmGroupId (some groupId) .group = countedIn team shipping.csmGroupId :=
      funext fun entry => countsFor_group entry _
    exact congrArg (fun p => ((shipping.entries.filter p).map (shipmentWeight team key)).sum) hwhole
  rows := by
    set managers := allManagers (sources.managers team)
      (teamReports sources.compute team (splitShipping calendar (some shipping)) calendar) with hmanagers
    have hperm : List.Perm ((managers.insertionSort fun a b => nameLE a.name b.name).map Manager.id)
        (managers.map Manager.id) := (List.perm_insertionSort _ _).map _
    have hnodup : (managers.map Manager.id).Nodup := nodup_keys_firstOfEach _
    have hsum : (_ : ℚ) = shippedFor team shipping.csmGroupId key (some groupId) .group shipping.entries :=
      sum_owners hnodup
        (fun entry hentry hcounted => owner_mem hkey hbegun (sources.managers team) hentry hcounted) (some groupId)
    rw [← (hperm.map _).sum_eq, List.map_map] at hsum
    show (List.map (rowShipped shipping _ key shipping.entries) (List.map _ _)).sum = _
    rw [List.map_map]
    exact hsum
  days := by
    intro hcurrent row hrow
    obtain ⟨htype, hfacts⟩ := mem_rows_buildPlanFactTeam toLowerCase nameLE hrow
    rw [(hfacts key hkey).2]
    have hdays := @targetFacts_days team key sources.compute shipping calendar hkey hcurrent hbegun htoday hentries
      row.targetId row.targetType htype
    exact ⟨hdays.1, hdays.2, shippedFor_split _ _ _ _⟩

/-! ## Whole cents -/

/-- Every shipment adds a whole number of cents. -/
def InCents (team : TeamKey) (key : String) (entries : List ShipmentEntry) : Prop :=
  ∀ entry ∈ entries, ∃ n : ℤ, shipmentWeight team key entry = n / 100

/-- A count does. -/
theorem inCents_count (team : TeamKey) (entries : List ShipmentEntry) : InCents team (shippedCount team) entries :=
  fun entry _ => ⟨100, by rw [shipmentWeight, if_pos rfl]; norm_num⟩

theorem roundMetric_shippedFor {entries : List ShipmentEntry} (h : InCents team key entries) (id : Option String)
    (targetType : TargetType) : roundMetric (shippedFor team csmGroupId key id targetType entries) =
      shippedFor team csmGroupId key id targetType entries := by
  obtain ⟨n, hn⟩ : ∃ n : ℤ, shippedFor team csmGroupId key id targetType entries = n / 100 := by
    induction entries with
    | nil => exact ⟨0, by rw [Int.cast_zero, zero_div]; rfl⟩
    | cons entry entries ih =>
      obtain ⟨n, hn⟩ := ih fun entry' hentry' => h entry' (List.mem_cons_of_mem _ hentry')
      obtain ⟨k, hk⟩ := h entry List.mem_cons_self
      rw [← List.singleton_append, shippedFor_append, shippedFor_singleton, hn, hk]
      split_ifs
      · exact ⟨k + n, by push_cast; ring⟩
      · exact ⟨n, zero_add _⟩
  rw [hn, roundMetric, toFixed2_cents]

variable {toLowerCase nameLE}

/-- In whole cents the values that are shown conserve the shipments. -/
theorem Conserves.inCents {sources : Sources} {calendar : Calendar} {shipping : ActualShipping} {team : PlanFactTeam}
    (h : Conserves sources calendar shipping team key) (hcents : InCents team.key key shipping.entries) :
    monthFact team.total key = some (team.rows.map fun row => (monthFact row key).getD 0).sum ∧
      (calendar.isCurrentMonth = true → ∀ row ∈ team.total :: team.rows, ∃ month before today : ℚ,
        monthFact row key = some month ∧ (rowFacts sources calendar shipping team row key).beforeToday = some before ∧
          todayFact row key = some today ∧ month = before + today) := by
  have hfilter : ∀ p, InCents team.key key (shipping.entries.filter p) := fun p entry hentry =>
    hcents entry (List.mem_filter.1 hentry).1
  have hmonth : ∀ row ∈ team.total :: team.rows,
      monthFact row key = some (rowShipped shipping team key shipping.entries row) := fun row hrow => by
    rw [h.shown row hrow, rowShipped, roundMetric_shippedFor hcents]
  refine ⟨?_, fun hcurrent row hrow => ?_⟩
  · have hrows : (team.rows.map fun row => (monthFact row key).getD 0) =
        team.rows.map (rowShipped shipping team key shipping.entries) := List.map_congr_left fun row hrow => by
      rw [hmonth row (List.mem_cons_of_mem _ hrow), Option.getD_some]
    rw [hmonth team.total List.mem_cons_self, hrows, h.rows]
  · obtain ⟨htoday, hbefore, hsplit⟩ := h.days hcurrent row hrow
    rw [rowShipped, roundMetric_shippedFor (hfilter _)] at htoday hbefore
    exact ⟨_, _, _, hmonth row hrow, hbefore, htoday, hsplit⟩

/-- Every shipment goes to exactly one of the two teams and the block of those without an owner. -/
theorem counted_once (csmGroupId : String) (entry : ShipmentEntry) :
    [countedIn .sales csmGroupId entry, countedIn .csm csmGroupId entry, isUnassigned entry].count true = 1 := by
  unfold countedIn
  by_cases hcsm : entry.deal.groupId = some csmGroupId <;> cases isUnassigned entry <;> simp [hcsm]

/-- **Plan-fact shipments.** With both teams configured, every shipment of the month counts for exactly one of the
sales total, the CSM total and the unassigned block. In both metrics of a team the total is the sum of the rows, and
in the current month every row and total is what it was before the current day and what that day adds. These sums are
exact before they are rounded to cents; the values shown conserve the shipments for the count, and for the amount
where every amount is in whole cents. -/
theorem shipments_conserved {offset : ℤ → ℤ} {now : ℤ} {sources : Sources} {planSetId monthInput : Option String}
    {fuel : ℕ} {result : PlanFactResult} {shipping : ActualShipping} {salesGroup csmGroup : String}
    (hsales : sources.refs .sales = some salesGroup) (hcsm : sources.refs .csm = some csmGroup)
    (hresult : planFact toLowerCase nameLE offset now sources planSetId monthInput fuel = some result)
    (hshipping : monthShipping sources.shipping result.calendar = some shipping)
    (hentries : ∀ entry ∈ shipping.entries, result.calendar.monthStart ≤ entry.shippedAt) :
    (∀ entry ∈ shipping.entries, [countedIn .sales shipping.csmGroupId entry,
      countedIn .csm shipping.csmGroupId entry,
      isUnassigned entry].count true = 1) ∧
    result.unassignedShipping = ⟨(shipping.entries.filter isUnassigned).length,
      ((shipping.entries.filter isUnassigned).map fun entry => entry.deal.amount.getD 0).sum⟩ ∧
    result.teams.map PlanFactTeam.key = [.sales, .csm] ∧
    ∀ team ∈ result.teams, ∀ key, IsShipped team.key key →
      Conserves sources result.calendar shipping team key ∧
      (key = shippedCount team.key ∨ (∀ entry ∈ shipping.entries, ∃ n : ℤ, entry.deal.amount.getD 0 = n / 100) →
        monthFact team.total key = some (team.rows.map fun row => (monthFact row key).getD 0).sum ∧
        (result.calendar.isCurrentMonth = true → ∀ row ∈ team.total :: team.rows, ∃ month before today : ℚ,
          monthFact row key = some month ∧
          (rowFacts sources result.calendar shipping team row key).beforeToday = some before ∧
          todayFact row key = some today ∧ month = before + today)) := by
  obtain ⟨calendar, hcalendar, rfl⟩ := Option.map_eq_some_iff.1 hresult
  obtain ⟨htoday, -, -⟩ := planFactCalendar_order hcalendar
  change monthShipping sources.shipping calendar = some shipping at hshipping
  change ∀ entry ∈ shipping.entries, calendar.monthStart ≤ entry.shippedAt at hentries
  have hbegun : calendar.monthStart ≤ periodEnd calendar := by
    by_contra hlater
    rw [monthShipping, if_pos (not_le.1 hlater)] at hshipping
    cases hshipping
  have hteams : (planFactOf toLowerCase nameLE sources planSetId calendar).teams =
      [buildPlanFactTeam toLowerCase nameLE sources .sales salesGroup (splitShipping calendar (some shipping))
        (monthItems calendar (chosenPlanSet sources.planSets planSetId)) calendar,
      buildPlanFactTeam toLowerCase nameLE sources .csm csmGroup (splitShipping calendar (some shipping))
        (monthItems calendar (chosenPlanSet sources.planSets planSetId)) calendar] := by
    simp only [planFactOf, hshipping, List.filterMap_cons, hsales, hcsm, Option.map_some, List.filterMap_nil]
  refine ⟨fun entry _ => counted_once _ entry, ?_, by rw [hteams]; rfl, fun team hteam key hkey => ?_⟩
  · simp only [planFactOf, hshipping]
    rfl
  · have hconserves : Conserves sources calendar shipping team key := by
      rw [hteams] at hteam
      rcases List.mem_cons.1 hteam with rfl | hteam
      · exact buildPlanFactTeam_conserves toLowerCase nameLE hkey hbegun htoday hentries
      · rw [List.mem_singleton.1 hteam] at hkey ⊢
        exact buildPlanFactTeam_conserves toLowerCase nameLE hkey hbegun htoday hentries
    refine ⟨hconserves, fun hcents => hconserves.inCents ?_⟩
    rcases hcents with rfl | hamounts
    · exact inCents_count _ _
    · intro entry hentry
      by_cases hcount : key = shippedCount team.key
      · exact hcount ▸ inCents_count team.key shipping.entries entry hentry
      · obtain ⟨n, hn⟩ := hamounts entry hentry
        exact ⟨n, by rw [shipmentWeight, if_neg hcount, hn]⟩

end Rows

/-! ## Amounts below a cent -/

def emptyReport : Report := ⟨[], fun _ => none, List.nodup_nil⟩

/-- A shipment of an owner outside the group CSM, on 31 August 2026. -/
def augustShipment (owner : String) (amount : ℚ) : ShipmentEntry :=
  ⟨⟨"deal-" ++ owner, some amount, some owner, none, none⟩, 1_788_166_800_000⟩

/-- Two owners with a shipment of the amount each. -/
def twoOwners (amount : ℚ) : Sources where
  planSets := []
  refs
    | .sales => some "group-sales"
    | .csm => some "group-csm"
  managers := fun _ => []
  compute := fun _ _ _ => emptyReport
  shipping := fun _ _ => ⟨[augustShipment "anna" amount, augustShipment "boris" amount], "group-csm"⟩

/-- Two shipments of half a cent each: the sales total shows one cent, and each row shows one too. -/
theorem shipments_conserved_fails :
    ((planFact (fun s => s) (fun _ _ => True) (fun _ => 3 * CivilDate.hour) 1_788_166_800_000 (twoOwners 0.005) none
      (some "2026-08") 40).map fun result => result.teams.map fun team =>
        (team.key, monthFact team.total "sales_shipped_amount",
          team.rows.map fun row => monthFact row "sales_shipped_amount")) =
      some [(.sales, some 0.01, [some 0.01, some 0.01]), (.csm, none, [])] := by
  decide +kernel

/-- Two shipments of 100 on the last day of August. -/
theorem shipments_conserved_sample : ∃ result, planFact (fun s => s) (fun _ _ => True) (fun _ => 3 * CivilDate.hour)
    1_788_166_800_000 (twoOwners 100) none (some "2026-08") 40 = some result ∧ ∀ team ∈ result.teams,
      monthFact team.total (shippedAmount team.key) =
        some (team.rows.map fun row => (monthFact row (shippedAmount team.key)).getD 0).sum := by
  have hresult : ∃ result, planFact (fun s => s) (fun _ _ => True) (fun _ => 3 * CivilDate.hour) 1_788_166_800_000
      (twoOwners 100) none (some "2026-08") 40 = some result ∧
        result.calendar.monthStart = 1_785_531_600_000 ∧
        ¬ periodEnd result.calendar < result.calendar.monthStart := by
    have hcalendar : ∃ calendar, planFactCalendar (fun _ => 3 * CivilDate.hour)
        (parsePlanFactMonth (fun _ => 3 * CivilDate.hour) 1_788_166_800_000 (some "2026-08")) 1_788_166_800_000 40 =
          some calendar ∧ calendar.monthStart = 1_785_531_600_000 ∧ ¬ periodEnd calendar < calendar.monthStart := by
      refine ⟨_, (Option.some_get (show Option.isSome _ = true by decide +kernel)).symm, by decide +kernel,
        by decide +kernel⟩
    obtain ⟨calendar, hcalendar, hstart, hbegun⟩ := hcalendar
    exact ⟨_, congrArg (Option.map _) hcalendar, hstart, hbegun⟩
  obtain ⟨result, hresult, hstart, hbegun⟩ := hresult
  refine ⟨result, hresult, fun team hteam => ?_⟩
  have hconserved := (shipments_conserved rfl rfl hresult (if_neg hbegun) (fun entry hentry => by
    rw [hstart]
    rcases List.mem_cons.1 hentry with rfl | hentry
    · decide
    · rw [List.mem_singleton.1 hentry]
      decide)).2.2.2 team hteam (shippedAmount team.key) (.inr rfl)
  refine (hconserved.2 (.inr fun entry hentry => ⟨10_000, ?_⟩)).1
  rcases List.mem_cons.1 hentry with rfl | hentry
  · norm_num [augustShipment]
  · rw [List.mem_singleton.1 hentry]
    norm_num [augustShipment]

end AmoAnalytics.Platform.PlanFact
