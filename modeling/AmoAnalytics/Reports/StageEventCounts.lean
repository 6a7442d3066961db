import AmoAnalytics.Reports.StageEvents

/-!
# Counting stage events

Over an interval a metric counts the changes recorded within it, each once, whether its stages, those before the
cut-off or both take it. The counts of two adjoining intervals add up to that of both (`dealCount_adjoining`).
-/

namespace AmoAnalytics.Reports.Contract

open CivilDate Common DateText FirstOfEach

variable {δ : Type*}

/-! ## The two readings -/

section Readings

variable {other : String → Option ℤ} {db : Database δ} {role : UserRole} {metric : EventMetric δ}
  {filters : EventFilters δ} {a c : ℤ}

/-- The time up to which the stages of before are read. -/
def legacyCutoff (other : String → Option ℤ) (metric : EventMetric δ) : Option ℤ :=
  if metric.legacyStageIds = [] then none else (given metric.legacyStageBefore).bind (newDate other)

theorem inPeriod_between {t : ℤ} : inPeriod (.between a c) t = true ↔ a ≤ t ∧ t ≤ c := by
  simp [inPeriod, DateRange.between]

/-- A bound of a period is a date the language has. -/
theorem between_range {period : ReportFilters} (h : dateRange other period = .between a c) :
    (-maxTime ≤ a ∧ a ≤ maxTime) ∧ -maxTime ≤ c ∧ c ≤ maxTime := by
  have hparse : ∀ {text : String} {endOfDay : Bool} {t : ℤ}, parseFilterDate other text endOfDay = some t →
      -maxTime ≤ t ∧ t ≤ maxTime := by
    intro text endOfDay t ht
    unfold parseFilterDate at ht
    split at ht
    · split_ifs at ht
      · exact (timeClip_eq_some.1 ht).2
      · exact (timeClip_eq_some.1 ht).2
    · exact newDate_range ht
  obtain ⟨hgte, hlte⟩ := DateRange.mk.inj h
  obtain ⟨_, -, hfrom⟩ := Option.map_eq_some_iff.1 hgte
  obtain ⟨_, -, hto⟩ := Option.map_eq_some_iff.1 hlte
  exact ⟨hparse hfrom, hparse hto⟩

/-- Replacing the end of a period by an instant keeps its beginning. -/
theorem inPeriod_until {period : ReportFilters} (h : dateRange other period = .between a c) {b : ℤ}
    (hb : -maxTime ≤ b ∧ b ≤ maxTime) {t : ℤ} :
    inPeriod (dateRange other { period with dateTo := some (isoString b) }) t = true ↔ a ≤ t ∧ t ≤ b := by
  have hgte : (dateRange other { period with dateTo := some (isoString b) }).gte = some (some a) :=
    congrArg DateRange.gte h
  have hlte : (dateRange other { period with dateTo := some (isoString b) }).lte = some (some b) := by
    unfold dateRange
    dsimp only
    rw [given_isoString, Option.map_some, parseFilterDate_instant dateOnly_isoString, newDate_isoString other hb]
  unfold inPeriod
  rw [hgte, hlte]
  simp

/-- The stages of before are read over the part of the period before the cut-off. -/
theorem legacyStageFilters_between (metric : EventMetric δ) (h : dateRange other filters.period = .between a c) :
    ∃ legacy, legacyStageFilters other metric filters = .ok legacy ∧
      (legacy = none ∧ (∀ cutoff, legacyCutoff other metric = some cutoff → cutoff ≤ a) ∨
        ∃ cutoff period, legacy = some { filters with period } ∧ legacyCutoff other metric = some cutoff ∧
          ∀ t, inPeriod (dateRange other period) t = true ↔ a ≤ t ∧ t ≤ c ∧ t < cutoff) := by
  unfold legacyStageFilters legacyCutoff
  cases hbefore : given metric.legacyStageBefore with
  | none => exact ⟨none, rfl, .inl ⟨rfl, by simp⟩⟩
  | some before =>
    dsimp only
    by_cases hids : metric.legacyStageIds = []
    · rw [if_pos hids]
      exact ⟨none, rfl, .inl ⟨rfl, by simp [hids]⟩⟩
    · rw [if_neg hids, if_neg hids]
      cases hdate : newDate other before with
      | none => exact ⟨none, rfl, .inl ⟨rfl, by simp [hdate]⟩⟩
      | some cutoff =>
        obtain ⟨hrangea, hrangec⟩ := between_range h
        have hrange := newDate_range hdate
        dsimp only
        rw [h, show ((DateRange.between a c).gte.bind id) = some a from rfl,
          show ((DateRange.between a c).lte.bind id) = some c from rfl, Option.any_some]
        by_cases hle : cutoff ≤ a
        · rw [if_pos (decide_eq_true hle)]
          refine ⟨none, rfl, .inl ⟨rfl, ?_⟩⟩
          rintro _ hsome
          rw [Option.bind_some, hdate] at hsome
          exact Option.some.inj hsome ▸ hle
        · have hlast : timeClip (cutoff - 1) = some (cutoff - 1) := timeClip_eq_some.2 ⟨rfl, by omega, by omega⟩
          rw [if_neg (by simpa using hle), hlast]
          dsimp only
          by_cases hlt : c < cutoff - 1
          · rw [if_pos hlt]
            refine ⟨_, rfl, .inr ⟨cutoff, _, rfl, by rw [Option.bind_some, hdate], fun t => ?_⟩⟩
            rw [inPeriod_until h hrangec]
            omega
          · rw [if_neg hlt]
            refine ⟨_, rfl, .inr ⟨cutoff, _, rfl, by rw [Option.bind_some, hdate], fun t => ?_⟩⟩
            rw [inPeriod_until h ⟨by omega, by omega⟩]
            omega

/-- The period is not part of what a change is reported as. -/
theorem entry_period {stageIds : List String} {fromStageId : Option String} {options : EventOptions}
    (period : ReportFilters) (event : CrmEvent) :
    entry db role stageIds { filters with period } fromStageId options event =
      entry db role stageIds filters fromStageId options event := by
  obtain ⟨_, _, _, _ | _, _⟩ := filters <;> rfl

/-- Two readings of a change report the same. -/
theorem entry_unique {stageIds stageIds' : List String} {fromStageId : Option String} {options : EventOptions}
    {event : CrmEvent} {deal deal' : ReportDeal δ}
    (h : entry db role stageIds filters fromStageId options event = some deal)
    (h' : entry db role stageIds' filters fromStageId options event = some deal') : deal = deal' := by
  obtain ⟨_, row, -, hfact, -, rfl⟩ := entry_eq_some.1 h
  obtain ⟨_, row', -, hfact', -, rfl⟩ := entry_eq_some.1 h'
  rw [hfact] at hfact'
  obtain rfl := Option.some.inj hfact'
  rfl

theorem bucketId_entry {stageIds : List String} {fromStageId : Option String} {options : EventOptions}
    {event : CrmEvent} {deal : ReportDeal δ}
      (h : entry db role stageIds filters fromStageId options event = some deal) :
    bucketId deal = event.id := by
  obtain ⟨_, _, -, -, -, rfl⟩ := entry_eq_some.1 h
  rfl

end Readings

/-! ## What a metric records -/

section Recording

variable (other : String → Option ℤ) (db : Database δ) (role : UserRole) (metric : EventMetric δ)
  (filters : EventFilters δ)

/-- What a metric with stages makes of a change: an entry into one of them or, before the cut-off, into one of the
stages of before. -/
def recorded (event : CrmEvent) : Option (ReportDeal δ) :=
  let stageIds := metric.stageIds.filter (· ≠ "")
  if stageIds = [] then none
  else
    (entry db role stageIds filters metric.fromStageId metric.eventOptions event <|>
      if (legacyCutoff other metric).any (event.createdAt < ·) then
        entry db role metric.legacyStageIds filters metric.fromStageId metric.eventOptions event
      else none).filter (metricTakes metric)

/-- The buckets of a metric over stage events. -/
def stageEventBuckets (groupBy : GroupBy) : Except String (List (String × ContractBucket δ)) :=
  (findDealsForContractMetric other db role metric filters).map (metricBuckets groupBy metric.toBucketMetric)

/-- A change of the interval that is recorded in a group. -/
def countedIn (a c : ℤ) (groupBy : GroupBy) (group : String) (event : CrmEvent) : Bool :=
  decide (a ≤ event.createdAt ∧ event.createdAt ≤ c) &&
    (recorded other db role metric filters event).any (inGroup groupBy group)

variable {other : String → Option ℤ} {db : Database δ} {role : UserRole} {metric : EventMetric δ}
  {filters : EventFilters δ} {a c : ℤ}

theorem recorded_eq_some (hstages : metric.stageIds.filter (· ≠ "") ≠ []) {event : CrmEvent} {deal : ReportDeal δ} :
    recorded other db role metric filters event = some deal ↔ metricTakes metric deal = true ∧
      (entry db role (metric.stageIds.filter (· ≠ "")) filters metric.fromStageId metric.eventOptions event = some
        deal ∨
        (∃ cutoff, legacyCutoff other metric = some cutoff ∧ event.createdAt < cutoff) ∧
          entry db role metric.legacyStageIds filters metric.fromStageId metric.eventOptions event = some deal) := by
  unfold recorded
  dsimp only
  rw [if_neg hstages, Option.filter_eq_some_iff, and_comm]
  refine and_congr_right fun _ => ?_
  have hbefore : (legacyCutoff other metric).any (event.createdAt < ·) = true ↔
      ∃ cutoff, legacyCutoff other metric = some cutoff ∧ event.createdAt < cutoff := by
    rw [Option.any_eq_true]
    simp
  rw [← hbefore]
  cases hentry : entry db role (metric.stageIds.filter
    (· ≠ "")) filters metric.fromStageId metric.eventOptions event with
  | none => simp
  | some first =>
    rw [show (some first <|> _ : Option (ReportDeal δ)) = some first from rfl]
    refine ⟨.inl, ?_⟩
    rintro (hsame | ⟨-, hlegacy⟩)
    · exact hsame
    · exact congrArg some (entry_unique hentry hlegacy)

/-- A recorded change is counted under its own id. -/
theorem bucketId_recorded {event : CrmEvent} {deal : ReportDeal δ}
    (h : recorded other db role metric filters event = some deal) : bucketId deal = event.id := by
  by_cases hstages : metric.stageIds.filter (· ≠ "") = []
  · unfold recorded at h
    rw [if_pos hstages] at h
    cases h
  · rcases ((recorded_eq_some hstages).1 h).2 with hentry | ⟨-, hentry⟩
    · exact bucketId_entry hentry
    · exact bucketId_entry hentry

variable (db role metric filters)

/-- The deals of the metric over an interval are what it records of the changes within it. -/
theorem mem_findDealsForContractMetric (h : dateRange other filters.period = .between a c) :
    ∃ deals, findDealsForContractMetric other db role metric filters = .ok deals ∧ ∀ deal, deal ∈ deals ↔
      ∃ event ∈ db.events, (a ≤ event.createdAt ∧ event.createdAt ≤ c) ∧
        recorded other db role metric filters event = some deal := by
  obtain ⟨legacy, hlegacy, hcases⟩ := legacyStageFilters_between metric h
  unfold findDealsForContractMetric
  by_cases hstages : metric.stageIds.filter (· ≠ "") = []
  · refine ⟨[], if_pos hstages, fun deal => ?_⟩
    unfold recorded
    dsimp only
    simp only [if_pos hstages]
    simp
  · simp only [recorded_eq_some hstages]
    rw [if_neg hstages, hlegacy]
    rcases hcases with ⟨rfl, hlate⟩ | ⟨cutoff, period, rfl, hcutoff, hperiod⟩
    · refine ⟨_, rfl, fun deal => ?_⟩
      rw [applyMetricDealFilters, List.mem_filter, mem_findStageEventDeals]
      simp only [h, inPeriod_between]
      constructor
      · rintro ⟨⟨event, hevent, hin, hentry⟩, htakes⟩
        exact ⟨event, hevent, hin, htakes, .inl hentry⟩
      · rintro ⟨event, hevent, hin, htakes, hentry | ⟨⟨cutoff, hcutoff, hlt⟩, -⟩⟩
        · exact ⟨⟨event, hevent, hin, hentry⟩, htakes⟩
        · exact absurd (hlate cutoff hcutoff) (by omega)
    · refine ⟨_, rfl, fun deal => ?_⟩
      rw [applyMetricDealFilters, List.mem_filter, List.mem_append, mem_findStageEventDeals, mem_findStageEventDeals]
      simp only [h, inPeriod_between, hperiod, entry_period]
      constructor
      · rintro ⟨⟨event, hevent, hin, hentry⟩ | ⟨event, hevent, ⟨hge, hle, hlt⟩, hentry⟩, htakes⟩
        · exact ⟨event, hevent, hin, htakes, .inl hentry⟩
        · exact ⟨event, hevent, ⟨hge, hle⟩, htakes, .inr ⟨⟨cutoff, hcutoff, hlt⟩, hentry⟩⟩
      · rintro ⟨event, hevent, hin, htakes, hentry | ⟨⟨cutoff', hcutoff', hlt⟩, hentry⟩⟩
        · exact ⟨.inl ⟨event, hevent, hin, hentry⟩, htakes⟩
        · obtain rfl : cutoff = cutoff' := Option.some.inj (hcutoff ▸ hcutoff')
          exact ⟨.inr ⟨event, hevent, ⟨hin.1, hin.2, hlt⟩, hentry⟩, htakes⟩

/-- Over an interval each group counts the recorded changes of the interval once. -/
theorem dealCount_between (h : dateRange other filters.period = .between a c) (groupBy : GroupBy) :
    ∃ byGroup, stageEventBuckets other db role metric filters groupBy = .ok byGroup ∧ ∀ group,
      dealCount byGroup group = db.events.countP (countedIn other db role metric filters a c groupBy group) := by
  obtain ⟨deals, hdeals, hmem⟩ := mem_findDealsForContractMetric db role metric filters h
  refine ⟨metricBuckets groupBy metric.toBucketMetric deals, ?_, fun group => ?_⟩
  · rw [stageEventBuckets, hdeals]
    rfl
  · rw [dealCount_eq]
    refine length_firstOfEach_eq_countP db.eventKeys fun k => ?_
    unfold countedIn
    simp only [List.mem_map, List.mem_filter, hmem, Bool.and_eq_true, decide_eq_true_eq, Option.any_eq_true]
    constructor
    · rintro ⟨deal, ⟨⟨event, hevent, hin, hrecorded⟩, hgroup⟩, rfl⟩
      exact ⟨event, hevent, ⟨hin, deal, hrecorded, hgroup⟩, (bucketId_recorded hrecorded).symm⟩
    · rintro ⟨event, hevent, ⟨hin, deal, hrecorded, hgroup⟩, rfl⟩
      exact ⟨deal, ⟨⟨event, hevent, hin, hrecorded⟩, hgroup⟩, bucketId_recorded hrecorded⟩

/-- The changes counted over an interval are those up to an instant of it and those after. -/
theorem countP_countedIn {b : ℤ} (hab : a ≤ b) (hbc : b < c) (groupBy : GroupBy) (group : String) :
    db.events.countP (countedIn other db role metric filters a c groupBy group) =
      db.events.countP (countedIn other db role metric filters a b groupBy group) +
        db.events.countP (countedIn other db role metric filters (b + 1) c groupBy group) := by
  rw [List.countP_eq_countP_filter_add _ _ fun event => decide (event.createdAt ≤ b), List.countP_filter,
    List.countP_filter]
  congr 1
  · refine List.countP_congr fun event _ => ?_
    simp only [countedIn, Bool.and_eq_true, decide_eq_true_eq]
    constructor
    · rintro ⟨⟨⟨h₁, -⟩, h₂⟩, h₃⟩
      exact ⟨⟨h₁, h₃⟩, h₂⟩
    · rintro ⟨⟨h₁, h₃⟩, h₂⟩
      exact ⟨⟨⟨h₁, by omega⟩, h₂⟩, h₃⟩
  · refine List.countP_congr fun event _ => ?_
    simp only [countedIn, Bool.and_eq_true, decide_eq_true_eq, Bool.not_eq_true', decide_eq_false_iff_not]
    constructor
    · rintro ⟨⟨⟨-, h₁⟩, h₂⟩, h₃⟩
      exact ⟨⟨by omega, h₁⟩, h₂⟩
    · rintro ⟨⟨h₃, h₁⟩, h₂⟩
      exact ⟨⟨⟨by omega, h₁⟩, h₂⟩, by omega⟩

theorem countedIn_period (period : ReportFilters) (groupBy : GroupBy) (group : String) :
    countedIn other db role metric { filters with period } a c groupBy group =
      countedIn other db role metric filters a c groupBy group := by
  funext event
  unfold countedIn recorded
  simp only [entry_period]

/-- The counts over `[a, b]` and over the milliseconds after `b` up to `c` add up to the one over `[a, c]`, in every
group, and that is the number of the recorded changes of the period. -/
theorem dealCount_adjoining {b : ℤ} (hab : a ≤ b) (hbc : b < c) {whole first rest : ReportFilters}
    (hwhole : dateRange other whole = .between a c) (hfirst : dateRange other first = .between a b)
    (hrest : dateRange other rest = .between (b + 1) c) (groupBy : GroupBy) :
    ∃ ofWhole ofFirst ofRest,
      stageEventBuckets other db role metric { filters with period := whole } groupBy = .ok ofWhole ∧
      stageEventBuckets other db role metric { filters with period := first } groupBy = .ok ofFirst ∧
      stageEventBuckets other db role metric { filters with period := rest } groupBy = .ok ofRest ∧ ∀ group,
        dealCount ofWhole group = dealCount ofFirst group + dealCount ofRest group ∧
        dealCount ofWhole group = db.events.countP (countedIn other db role metric filters a c groupBy group) := by
  obtain ⟨ofWhole, hofWhole, hcountWhole⟩ :=
    dealCount_between db role metric { filters with period := whole } hwhole groupBy
  obtain ⟨ofFirst, hofFirst, hcountFirst⟩ :=
    dealCount_between db role metric { filters with period := first } hfirst groupBy
  obtain ⟨ofRest, hofRest, hcountRest⟩ :=
    dealCount_between db role metric { filters with period := rest } hrest groupBy
  refine ⟨ofWhole, ofFirst, ofRest, hofWhole, hofFirst, hofRest, fun group => ?_⟩
  rw [hcountWhole, hcountFirst, hcountRest, countedIn_period db role metric filters whole,
    countedIn_period db role metric filters first, countedIn_period db role metric filters rest]
  exact ⟨countP_countedIn db role metric filters hab hbc groupBy group, rfl⟩

end Recording

/-! ## Three changes -/

/-- A change into the former stage, one into the present stage before the cut-off, and one after it. -/
def threeChanges : Database Unit where
  events :=
    [{ id := "e1", type_ := "lead_status_changed", dealId := some "d", createdAt := 500, createdBy := some "7"
       beforeStatusId := none, beforePipelineId := none, afterStatusId := some "10", afterPipelineId := some "1" },
     { id := "e2", type_ := "lead_status_changed", dealId := some "d", createdAt := 900, createdBy := some "7"
       beforeStatusId := none, beforePipelineId := none, afterStatusId := some "20", afterPipelineId := some "1" },
     { id := "e3", type_ := "lead_status_changed", dealId := some "d", createdAt := 1_500, createdBy := some "7"
       beforeStatusId := none, beforePipelineId := none, afterStatusId := some "20", afterPipelineId := some "1" }]
  users := [{ id := "m", externalId := "7", groupId := none, isActive := true, isVisible := true }]
  stages := [{ id := "former", externalId := "10", pipelineExternalId := "1" },
    { id := "present", externalId := "20", pipelineExternalId := "1" }]
  deals := [{ dealId := "d", pipelineId := "p", responsibleId := some "m", groupId := none, deletedAt := none
              columns := () }]
  eventKeys := by decide
  userKeys := by decide
  dealKeys := by decide

/-- The present stage is among those of before as well. -/
def overStages : EventMetric Unit where
  weighted := false
  measure := .dealCount
  fieldNumber := fun _ => 0
  stageIds := ["present"]
  fromStageId := none
  legacyStageIds := ["former", "present"]
  legacyStageBefore := some "the first second"
  amoEvent := false
  includeSystemStageEvents := true
  excludeGroupIds := []
  extraFilters := fun _ => true

def allDeals (period : ReportFilters) : EventFilters Unit where
  period := period
  managerIds := []
  groupIds := []
  workspace := none
  dealConditions := fun _ => true

theorem dealCount_adjoining_three : ∃ ofWhole ofFirst ofRest,
    stageEventBuckets (fun _ => some 1_000) threeChanges .admin overStages
      (allDeals ⟨some (isoString 0), some (isoString 2_000)⟩) .manager = .ok ofWhole ∧
    stageEventBuckets (fun _ => some 1_000) threeChanges .admin overStages
      (allDeals ⟨some (isoString 0), some (isoString 900)⟩) .manager = .ok ofFirst ∧
    stageEventBuckets (fun _ => some 1_000) threeChanges .admin overStages
      (allDeals ⟨some (isoString 901), some (isoString 2_000)⟩) .manager = .ok ofRest ∧ ∀ group,
      dealCount ofWhole group = dealCount ofFirst group + dealCount ofRest group ∧
      dealCount ofWhole group = threeChanges.events.countP
        (countedIn (fun _ => some 1_000) threeChanges .admin overStages (allDeals ⟨none,
          none⟩) 0 2_000 .manager group) :=
  dealCount_adjoining _ _ _ (allDeals ⟨none, none⟩) (by decide) (by decide)
    (dateRange_isoString (by decide) (by decide)) (dateRange_isoString (by decide) (by decide))
    (dateRange_isoString (by decide) (by decide)) .manager

example : threeChanges.events.countP
    (countedIn (fun _ => some 1_000) threeChanges .admin overStages (allDeals ⟨none,
      none⟩) 0 2_000 .manager "m") = 3 := by
  decide

end AmoAnalytics.Reports.Contract
