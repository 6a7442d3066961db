import AmoAnalytics.Lib.CellSum
import AmoAnalytics.Workspaces.Performance

/-!
# Weeks and days of a month add up

The credited events of a period are the credited events of its month that lie in it, so their counts add up over the
weeks and over the days. Shipments are rows of the period asked, so a deal counts once for each period in which it
entered the shipment stage.
-/

namespace AmoAnalytics.Workspaces.Performance

open CivilDate Shipments

/-! ## Credited events -/

section Credited

variable {db : Database} {department : Department}

theorem creditLoop_filter (unique : ActivityMetric → Bool) (month period : Period)
    (seen : List (ActivityMetric × String)) {l : List Activity} (h : ∀ event ∈ l, month.has event.occurredAt) :
    creditLoop unique period seen l =
      (creditLoop unique month seen l).filter fun event => period.has event.occurredAt := by
  induction l generalizing seen with
  | nil => rfl
  | cons event rest ih =>
    have hrest := fun seen => ih seen fun e he => h e (List.mem_cons_of_mem _ he)
    have hmonth := h event List.mem_cons_self
    unfold creditLoop
    dsimp only
    by_cases hpassed : (unique event.metric && (event.system || decide (event.key ∈ seen))) = true
    · rw [if_pos hpassed, if_pos hpassed]
      exact hrest seen
    · rw [if_neg hpassed, if_neg hpassed, if_pos hmonth, hrest]
      by_cases hperiod : period.has event.occurredAt
      · rw [if_pos hperiod, List.filter_cons_of_pos (by simpa using hperiod)]
      · rw [if_neg hperiod, List.filter_cons_of_neg (by simpa using hperiod)]

theorem mem_activities {month : Period} {activity : Activity} : activity ∈ activities db department month ↔
    ∃ event ∈ db.events, ∃ rule ∈ department.rules, activityOf db department month event rule = some activity := by
  unfold activities
  rw [List.mem_insertionSort, List.mem_flatMap]
  simp only [List.mem_filterMap]

theorem activityOf_eq_some {month : Period} {event : CrmEvent} {rule : ActivityMetric × String} {activity : Activity} :
    activityOf db department month event rule = some activity ↔ ∃ dealId, event.dealId = some dealId ∧
      (dealId ∈ db.shipping.deals.map FactDeal.dealId ∧ entersStage db rule event ∧
        (rule.1 ≠ .paid ∨ department.key ≠ "sales" ∨ event.byHuman) ∧ month.has event.createdAt) ∧
      activity = { metric := rule.1, dealId
                   actorId := event.createdBy.bind fun user =>
                     (db.users.find? fun u => u.externalId = user).map CrmUser.id
                   occurredAt := event.createdAt, eventId := event.externalId
                   system := event.createdBy = some "0" } := by
  unfold activityOf
  cases event.dealId with
  | none => simp
  | some dealId =>
    dsimp only
    split_ifs with hcond
    · constructor
      · rintro ⟨⟩
        exact ⟨dealId, rfl, hcond, rfl⟩
      · rintro ⟨_, ⟨⟩, -, rfl⟩
        rfl
    · constructor
      · rintro ⟨⟩
      · rintro ⟨_, ⟨⟩, h, -⟩
        exact absurd h hcond

theorem activity_in_month {month : Period} {activity : Activity} (h : activity ∈ activities db department month) :
    month.has activity.occurredAt := by
  obtain ⟨event, -, rule, -, hsome⟩ := mem_activities.1 h
  obtain ⟨dealId, -, ⟨-, -, -, hmonth⟩, rfl⟩ := activityOf_eq_some.1 hsome
  exact hmonth

/-- What is credited in a period is what the month credits there, whichever period is asked. -/
theorem credited_eq_filter (mode : Option CompetitionMode) (month period : Period) :
    credited db department mode month period =
      (credited db department mode month month).filter fun event => period.has event.occurredAt :=
  creditLoop_filter _ month period _ fun _ => activity_in_month

/-- Counts of credited events add up over cells that divide the month. -/
theorem sum_creditedFact (mode : Option CompetitionMode) (view : View) {month : Period} {spans : Finset Period}
    (hcover : ∀ t, month.has t ↔ ∃ span ∈ spans, span.has t)
    (hunique : ∀ a ∈ spans, ∀ b ∈ spans, ∀ t, a.has t → b.has t → a = b) (id : Option String)
    (metric : ActivityMetric) : ∑ span ∈ spans, creditedFact db department mode view month span id metric =
      creditedFact db department mode view month month id metric := by
  set counted := (credited db department mode month month).filter fun event =>
    event.metric = metric ∧ relevant (selectedIds db department view month) id event.actorId
  have hfact : ∀ span, creditedFact db department mode view month span id metric =
      ((counted.filter fun event => span.has event.occurredAt).map fun _ => (1 : ℕ)).sum := by
    intro span
    rw [creditedFact, credited_eq_filter, List.filter_filter, List.filter_filter]
    simp only [Bool.and_comm, List.map_const', List.sum_replicate, smul_eq_mul, mul_one]
  simp only [hfact]
  exact sum_cells (fun event _ => hcover event.occurredAt)
    (fun a ha b hb event _ => hunique a ha b hb event.occurredAt) fun _ => (1 : ℕ)

end Credited

/-! ## Shipped amounts -/

/-- The deal entered the shipment stage within the period. -/
def EnteredIn (tables : Tables) (refs : ShippingRefs) (dealId : String) (period : Period) : Prop :=
  ∃ transition ∈ tables.transitions, transition.dealId = dealId ∧ transition.toStageId = refs.shippingStageId ∧
    period.has transition.movedAt

instance (tables : Tables) (refs : ShippingRefs) (dealId : String) : DecidablePred (EnteredIn tables refs dealId) :=
  fun _ => inferInstanceAs (Decidable (∃ transition ∈ tables.transitions, _))

section Shipped

variable {db : Database} {department : Department}

theorem enteredIn_iff {fact : FactDeal} {period : Period} :
    EnteredIn db.shipping department.refs fact.dealId period ↔
      ∃ t, Enters db.shipping department.refs fact period t := by
  constructor
  · rintro ⟨transition, htransition, hdeal, hstage, hperiod⟩
    exact ⟨_, transition, htransition, hdeal, hstage, rfl, hperiod⟩
  · rintro ⟨_, transition, htransition, hdeal, hstage, rfl, hperiod⟩
    exact ⟨transition, htransition, hdeal, hstage, hperiod⟩

instance (refs : ShippingRefs) (fact : FactDeal) : Decidable (Live refs fact) :=
  inferInstanceAs (Decidable (_ ∧ _))

/-- What a deal and its link bring to a fact in a period with an entry. -/
def linkAmount (department : Department) (selected : List String) (id : Option String)
    (fact : FactDeal) (link : ShipmentLink) : ℚ :=
  if (Live department.refs fact ∧ link.shipmentDealId = fact.dealId ∧ link.status = .confirmed ∧
      link.departmentKey = some department.key) ∧ relevant selected id link.managerId then fact.amount else 0

/-- The row of a deal and its link, counted with a factor of the deal. -/
theorem performanceRow_amount (selected : List String) (id : Option String) (g : String → ℚ) (period : Period)
    (fact : FactDeal) (link : ShipmentLink) :
    (((performanceRow db.shipping department.refs department.key period fact link).filter fun row =>
      relevant selected id row.actorId).map fun row => row.amount * g row.dealId).getD 0 =
      if EnteredIn db.shipping department.refs fact.dealId period then
        linkAmount department selected id fact link * g fact.dealId
      else 0 := by
  cases hrow : performanceRow db.shipping department.refs department.key period fact link with
  | some row =>
    obtain ⟨hcond, hfirst, heq⟩ := performanceRow_eq_some.1 hrow
    rw [if_pos (enteredIn_iff.2 ⟨_, hfirst.1⟩), heq, linkAmount]
    by_cases hrelevant : relevant selected id link.managerId = true
    · rw [Option.filter_some_pos (by simpa using hrelevant), if_pos ⟨hcond, hrelevant⟩]
      rfl
    · rw [Option.filter_some_neg (by simpa using hrelevant), if_neg fun h => hrelevant h.2, zero_mul]
      rfl
  | none =>
    by_cases hentered : EnteredIn db.shipping department.refs fact.dealId period
    · have hcond : ¬ (Live department.refs fact ∧ link.shipmentDealId = fact.dealId ∧ link.status = .confirmed ∧
          link.departmentKey = some department.key) := by
        intro hcond
        obtain ⟨t, ht⟩ := enteredIn_iff.1 hentered
        obtain ⟨first, hfirst⟩ := ht.first
        have hsome : performanceRow db.shipping department.refs department.key period fact link =
            some ⟨fact.dealId, link.managerId, fact.amount, first⟩ :=
          performanceRow_eq_some.2 ⟨hcond, hfirst, rfl⟩
        rw [hrow] at hsome
        cases hsome
      rw [if_pos hentered, linkAmount, if_neg fun h => hcond h.1, zero_mul]
      rfl
    · rw [if_neg hentered]
      rfl

/-- The relevant rows of a period, counted with a factor of the deal, from the deals and their links. -/
theorem sum_performanceShipments (selected : List String) (id : Option String) (g : String → ℚ) (period : Period) :
    (((performanceShipments db.shipping department.refs department.key period).filter fun row =>
      relevant selected id row.actorId).map fun row => row.amount * g row.dealId).sum =
      (db.shipping.deals.map fun fact => (db.shipping.links.map fun link =>
        if EnteredIn db.shipping department.refs fact.dealId period then
          linkAmount department selected id fact link * g fact.dealId
        else 0).sum).sum := by
  unfold performanceShipments
  rw [List.filter_flatMap, List.map_flatMap, List.flatMap_def, List.sum_flatten, List.map_map]
  congr 1
  refine List.map_congr_left fun fact _ => ?_
  rw [Function.comp_apply, List.filter_filterMap, sum_filterMap]
  congr 1
  refine List.map_congr_left fun link _ => ?_
  exact performanceRow_amount selected id g period fact link

/-- The periods of a division of the month in which the deal entered the shipment stage. -/
def periodsEntered (db : Database) (department : Department) (spans : Finset Period) (dealId : String) : ℕ :=
  (spans.filter fun span => EnteredIn db.shipping department.refs dealId span).card

/-- Over periods that divide the month, the amount of a deal counts once for each of them in which it entered. -/
theorem sum_shippedFact (view : View) {month : Period} {spans : Finset Period}
    (hcover : ∀ t, month.has t ↔ ∃ span ∈ spans, span.has t) (id : Option String) :
    ∑ span ∈ spans, shippedFact db department view month span id =
      (((performanceShipments db.shipping department.refs department.key month).filter fun row =>
        relevant (selectedIds db department view month) id row.actorId).map fun row =>
          row.amount * (periodsEntered db department spans row.dealId : ℚ)).sum := by
  set selected := selectedIds db department view month
  have hone : ∀ span, shippedFact db department view month span id =
      (((performanceShipments db.shipping department.refs department.key span).filter fun row =>
        relevant selected id row.actorId).map fun row => row.amount * (fun _ : String => (1 : ℚ)) row.dealId).sum := by
    intro span
    rw [shippedFact]
    simp only [mul_one]
    rfl
  rw [Finset.sum_congr rfl fun span _ => hone span,
    sum_performanceShipments selected id (fun dealId => (periodsEntered db department spans dealId : ℚ)) month]
  simp only [sum_performanceShipments selected id fun _ => (1 : ℚ), sum_list_comm]
  congr 1
  refine List.map_congr_left fun fact _ => ?_
  congr 1
  refine List.map_congr_left fun link _ => ?_
  rw [mul_one, ← Finset.sum_filter, Finset.sum_const, nsmul_eq_mul, mul_comm]
  change linkAmount department selected id fact link * (periodsEntered db department spans fact.dealId : ℚ) = _
  split_ifs with hentered
  · rfl
  · have hnone : periodsEntered db department spans fact.dealId = 0 := by
      rw [periodsEntered, Finset.card_eq_zero, Finset.filter_eq_empty_iff]
      rintro span hspan ⟨transition, htransition, hdeal, hstage, hhas⟩
      exact hentered ⟨transition, htransition, hdeal, hstage, (hcover _).2 ⟨span, hspan, hhas⟩⟩
    rw [hnone, Nat.cast_zero, mul_zero]

/-- A deal that entered in one of the periods only counts as in the month. -/
theorem sum_shippedFact_of_single (view : View) {month : Period} {spans : Finset Period}
    (hcover : ∀ t, month.has t ↔ ∃ span ∈ spans, span.has t) (id : Option String)
    (hsingle : ∀ row ∈ performanceShipments db.shipping department.refs department.key month,
      periodsEntered db department spans row.dealId = 1) :
    ∑ span ∈ spans, shippedFact db department view month span id = shippedFact db department view month month id := by
  rw [sum_shippedFact view hcover, shippedFact]
  congr 1
  refine List.map_congr_left fun row hrow => ?_
  rw [hsingle row (List.mem_of_mem_filter hrow), Nat.cast_one, mul_one]

end Shipped

/-! ## The weeks and the days of a month -/

section Month

variable {other : String → Option ℤ} {today month : String} {year number : ℕ}

end Month

/-- A deal that entered the shipment stage on 6 and on 13 October 2026, in two weeks. -/
def shippedTwice : Database where
  shipping :=
    { deals := [⟨"deal", "assembly", none, 100⟩]
      transitions := [⟨"deal", "assembly", "shipped", 1_791_270_000_000⟩, ⟨"deal", "assembly", "shipped", 1_791_874_800_000⟩]
      links := [⟨"deal", .confirmed, some "sales", some "manager"⟩]
      dealKeys := List.nodup_singleton "deal"
      linkKeys := List.nodup_singleton "deal" }
  events := []
  users := [⟨"manager", "1", some "group"⟩]
  stageKeys := fun _ => none
  finance := none
  eventKeys := by decide
  userKeys := by decide
  linkManagers := by decide
  financeManagers := fun _ h => by cases h

def salesDepartment : Department := ⟨"sales", "group", ⟨"assembly", "shipped"⟩, [(.paid, "paid")]⟩

end AmoAnalytics.Workspaces.Performance
