import AmoAnalytics.Workspaces.PerformanceTotals

/-!
# Deals that are credited once

Where a metric credits a deal once, the month credits the first event of the deal that takes the credit: one of the
month by somebody else than the automation, unless such an event of an earlier month names its user. An event whose
user is unknown takes the credit and gives it to nobody.
-/

namespace AmoAnalytics.Workspaces.Performance

open CivilDate Shipments

section Credit

variable {db : Database} {department : Department} {mode : Option CompetitionMode} {month : Period}
  {k : ActivityMetric × String}

/-! ## The loop -/

/-- Of a deal that is credited once the loop keeps the first event that is not the automation's. -/
theorem creditLoop_key {unique : ActivityMetric → Bool} (hunique : unique k.1 = true)
    (seen : List (ActivityMetric × String)) {l : List Activity} (h : ∀ event ∈ l, month.has event.occurredAt) :
    (creditLoop unique month seen l).filter (fun event => event.key = k) =
      if k ∈ seen then [] else (l.find? fun event => event.key = k ∧ event.system = false).toList := by
  induction l generalizing seen with
  | nil => simp [creditLoop]
  | cons event rest ih =>
    have hrest := fun seen => ih seen fun e he => h e (List.mem_cons_of_mem _ he)
    unfold creditLoop
    dsimp only
    rw [if_pos (h event List.mem_cons_self)]
    by_cases hkey : event.key = k
    · have hmetric : unique event.metric = true := by rw [← hkey] at hunique; exact hunique
      rw [hmetric, Bool.true_and, if_pos rfl]
      by_cases hseen : k ∈ seen
      · rw [if_pos hseen, if_pos (by simp [hkey, hseen]), hrest, if_pos hseen]
      · rw [if_neg hseen]
        cases hsystem : event.system with
        | true =>
          rw [if_pos (by simp), hrest, if_neg hseen, List.find?_cons_of_neg (by simp [hsystem])]
        | false =>
          rw [if_neg (by simp [hkey, hseen]), List.filter_cons_of_pos (by simp [hkey]), hrest,
            if_pos (by simp [hkey]), List.find?_cons_of_pos (by simp [hkey, hsystem])]
          rfl
    · have hseen : (k ∈ if unique event.metric then event.key :: seen else seen) ↔ k ∈ seen := by
        split_ifs
        · rw [List.mem_cons, or_iff_right (Ne.symm hkey)]
        · rfl
      rw [List.find?_cons_of_neg (by simp [hkey])]
      by_cases hpassed : (unique event.metric && (event.system || decide (event.key ∈ seen))) = true
      · rw [if_pos hpassed, hrest]
      · rw [if_neg hpassed, List.filter_cons_of_neg (by simp [hkey]), hrest]
        simp only [hseen]

instance : IsTrans Activity byTime := ⟨fun _ _ _ => le_trans⟩

instance : Std.Total byTime := ⟨fun _ _ => le_total _ _⟩

theorem pairwise_activities : (activities db department month).Pairwise byTime := List.pairwise_insertionSort _ _

/-- The credited events of a deal that is credited once. -/
theorem credited_key (hunique : isUnique department mode k.1 = true) :
    (credited db department mode month month).filter (fun event => event.key = k) =
      if k ∈ previous db department mode month then []
      else ((activities db department month).find? fun event => event.key = k ∧ event.system = false).toList :=
  creditLoop_key hunique _ fun _ => activity_in_month

/-! ## The event that is credited -/

/-- The event is one of the metric and the deal `k`. -/
structure Qualifies (db : Database) (department : Department) (k : ActivityMetric × String) (event : CrmEvent) :
    Prop where
  mem : event ∈ db.events
  deal : event.dealId = some k.2
  stage : ∃ rule ∈ department.rules, rule.1 = k.1 ∧ entersStage db rule event
  paid : k.1 ≠ .paid ∨ department.key ≠ "sales" ∨ event.byHuman

/-- `a` comes before `b` in the order of the activities. -/
def Before (a b : CrmEvent) : Prop := toLex (a.createdAt, a.externalId) < toLex (b.createdAt, b.externalId)

theorem before_of_lt {a b : CrmEvent} (h : a.createdAt < b.createdAt) : Before a b :=
  Prod.Lex.toLex_lt_toLex.2 (.inl h)

theorem Before.createdAt_le {a b : CrmEvent} (h : Before a b) : a.createdAt ≤ b.createdAt :=
  (Prod.Lex.toLex_lt_toLex.1 h).elim le_of_lt fun h => h.1.le

/-- The event takes the credit of `k` in the month or took it before: it is not the automation's, and it names its
user if it is of an earlier month. -/
structure Takes (db : Database) (department : Department) (month : Period) (k : ActivityMetric × String)
    (event : CrmEvent) : Prop where
  qualifies : Qualifies db department k event
  notSystem : event.createdBy ≠ some "0"
  named : event.createdBy = none → month.has event.createdAt

/-- The activity of an event. -/
def creditOf (db : Database) (k : ActivityMetric × String) (event : CrmEvent) : Activity where
  metric := k.1
  dealId := k.2
  actorId := event.createdBy.bind fun user => (db.users.find? fun u => u.externalId = user).map CrmUser.id
  occurredAt := event.createdAt
  eventId := event.externalId
  system := event.createdBy = some "0"

theorem mem_activities_key {activity : Activity} : activity ∈ activities db department month ∧ activity.key = k ↔
    k.2 ∈ db.shipping.deals.map FactDeal.dealId ∧ ∃ event, Qualifies db department k event ∧
      month.has event.createdAt ∧ activity = creditOf db k event := by
  rw [mem_activities]
  constructor
  · rintro ⟨⟨event, hevent, rule, hrule, hsome⟩, rfl⟩
    obtain ⟨dealId, hdeal, ⟨hknown, hstage, hpaid, hmonth⟩, rfl⟩ := activityOf_eq_some.1 hsome
    exact ⟨hknown, event, ⟨hevent, hdeal, ⟨rule, hrule, rfl, hstage⟩, hpaid⟩, hmonth, rfl⟩
  · rintro ⟨hknown, event, ⟨hevent, hdeal, ⟨rule, hrule, hmetric, hstage⟩, hpaid⟩, hmonth, rfl⟩
    refine ⟨⟨event, hevent, rule, hrule, activityOf_eq_some.2 ⟨k.2, hdeal, ⟨hknown, hstage, ?_, hmonth⟩, ?_⟩⟩, rfl⟩
    · rw [hmetric]
      exact hpaid
    · rw [hmetric]
      rfl

theorem byHuman_iff {event : CrmEvent} :
    event.byHuman = true ↔ event.createdBy ≠ none ∧ event.createdBy ≠ some "0" := by
  unfold CrmEvent.byHuman
  cases event.createdBy <;> simp

/-- The credit of a deal the month knows was taken before the month. -/
theorem mem_previous (hunique : isUnique department mode k.1 = true) {activity : Activity}
    (hactivity : activity ∈ activities db department month) (hkey : activity.key = k) :
    k ∈ previous db department mode month ↔
      ∃ event, Qualifies db department k event ∧ event.byHuman ∧ event.createdAt < month.start := by
  have hcond : (mode = some .uniqueDeal ∨ department.key = "sales") ∧ activities db department month ≠ [] := by
    refine ⟨?_, List.ne_nil_of_mem hactivity⟩
    unfold isUnique at hunique
    simp only [Bool.or_eq_true, decide_eq_true_eq, Bool.and_eq_true] at hunique
    exact hunique.imp id And.left
  have hdeal : k.2 ∈ (activities db department month).map Activity.dealId := by
    rw [← hkey]
    exact List.mem_map_of_mem hactivity
  unfold previous
  dsimp only
  rw [if_pos hcond, List.mem_flatMap]
  simp only [List.mem_filterMap]
  constructor
  · rintro ⟨event, hevent, rule, hrule, hsome⟩
    cases hid : event.dealId with
    | none => rw [hid] at hsome; cases hsome
    | some dealId =>
      rw [hid] at hsome
      dsimp only at hsome
      split_ifs at hsome with hpast
      obtain rfl := Option.some.inj hsome
      exact ⟨event, ⟨hevent, hid, ⟨rule, hrule, rfl, hpast.1⟩, .inr (.inr hpast.2.2.1)⟩, hpast.2.2.1, hpast.2.1⟩
  · rintro ⟨event, ⟨hevent, hid, ⟨rule, hrule, hmetric, hstage⟩, -⟩, hhuman, hbefore⟩
    refine ⟨event, hevent, rule, hrule, ?_⟩
    rw [hid]
    dsimp only
    rw [if_pos ⟨hstage, hbefore, hhuman, hdeal⟩, hmetric]

/-- The first activity of a kind is the least of them. -/
theorem find?_byTime {p : Activity → Prop} [DecidablePred p] {first activity : Activity}
    (hfind : ((activities db department month).find? fun event => p event) = some first)
    (hactivity : activity ∈ activities db department month) (hp : p activity) : byTime first activity := by
  obtain ⟨-, before, after, hsplit, hbefore⟩ := List.find?_eq_some_iff_append.1 hfind
  have hpairwise : (activities db department month).Pairwise byTime := pairwise_activities
  rw [hsplit] at hactivity hpairwise
  rcases List.mem_append.1 hactivity with h | h
  · exact absurd hp (by simpa using hbefore activity h)
  · rcases List.mem_cons.1 h with rfl | h
    · exact le_rfl
    · exact (List.pairwise_cons.1 (List.pairwise_append.1 hpairwise).2.1).1 activity h

/-- Of a deal that is credited once the month credits the first event that takes the credit. -/
theorem mem_credited_iff (hunique : isUnique department mode k.1 = true) {activity : Activity} :
    activity ∈ credited db department mode month month ∧ activity.key = k ↔
      k.2 ∈ db.shipping.deals.map FactDeal.dealId ∧ ∃ event, Takes db department month k event ∧
        month.has event.createdAt ∧ activity = creditOf db k event ∧
        ∀ earlier, Takes db department month k earlier → ¬ Before earlier event := by
  have hfilter : activity ∈ credited db department mode month month ∧ activity.key = k ↔
      k ∉ previous db department mode month ∧
        ((activities db department month).find? fun event => event.key = k ∧ event.system = false) =
          some activity := by
    have hmem : activity ∈ credited db department mode month month ∧ activity.key = k ↔
        activity ∈ (credited db department mode month month).filter (fun event => event.key = k) := by
      rw [List.mem_filter, decide_eq_true_eq]
    rw [hmem, credited_key hunique]
    split_ifs with hprevious
    · simp [hprevious]
    · rw [Option.mem_toList, and_iff_right hprevious]
  rw [hfilter]
  constructor
  · rintro ⟨hprevious, hfind⟩
    have hcond := List.find?_some hfind
    have hmem := List.mem_of_find?_eq_some hfind
    rw [decide_eq_true_eq] at hcond
    obtain ⟨hknown, event, hqualifies, hmonth, rfl⟩ := mem_activities_key.1 ⟨hmem, hcond.1⟩
    have hsystem : event.createdBy ≠ some "0" := of_decide_eq_false hcond.2
    refine ⟨hknown, event, ⟨hqualifies, hsystem, fun _ => hmonth⟩, hmonth, rfl, fun earlier htakes hbefore => ?_⟩
    by_cases hin : month.has earlier.createdAt
    · -- an earlier event of the month comes first among the activities
      obtain ⟨hactivity, hkey⟩ := mem_activities_key.2 ⟨hknown, earlier, htakes.qualifies, hin, rfl⟩
      have hle := find?_byTime hfind hactivity ⟨hkey, decide_eq_false htakes.notSystem⟩
      exact absurd hbefore (not_lt_of_ge hle)
    · -- one before the month is among the previous events
      have hpast : earlier.createdAt < month.start := by
        by_contra hge
        exact hin ⟨not_lt.1 hge, hbefore.createdAt_le.trans_lt hmonth.2⟩
      have hhuman : earlier.byHuman = true :=
        byHuman_iff.2 ⟨fun hnone => hin (htakes.named hnone), htakes.notSystem⟩
      exact hprevious ((mem_previous hunique hmem hcond.1).2 ⟨earlier, htakes.qualifies, hhuman, hpast⟩)
  · rintro ⟨hknown, event, htakes, hmonth, rfl, hfirst⟩
    obtain ⟨hactivity, hkey⟩ := mem_activities_key.2 ⟨hknown, event, htakes.qualifies, hmonth, rfl⟩
    have hcond : (creditOf db k event).key = k ∧ (creditOf db k event).system = false :=
      ⟨rfl, decide_eq_false htakes.notSystem⟩
    constructor
    · intro hprevious
      obtain ⟨earlier, hqualifies, hhuman, hpast⟩ := (mem_previous hunique hactivity hkey).1 hprevious
      obtain ⟨hnamed, hsystem⟩ := byHuman_iff.1 hhuman
      exact hfirst earlier ⟨hqualifies, hsystem, fun h => absurd h hnamed⟩ (before_of_lt (hpast.trans_le hmonth.1))
    · cases hfind : (activities db department month).find? fun event => event.key = k ∧ event.system = false with
      | none => exact absurd (decide_eq_true hcond) (List.find?_eq_none.1 hfind _ hactivity)
      | some first =>
        have hfound := List.find?_some hfind
        rw [decide_eq_true_eq] at hfound
        obtain ⟨-, other, hqualifies, hother, rfl⟩ :=
          mem_activities_key.1 ⟨List.mem_of_find?_eq_some hfind, hfound.1⟩
        have hle : byTime (creditOf db k other) (creditOf db k event) := find?_byTime hfind hactivity hcond
        have hsame : toLex (other.createdAt, other.externalId) = toLex (event.createdAt, event.externalId) :=
          le_antisymm hle (not_lt.1 (hfirst other ⟨hqualifies, of_decide_eq_false hfound.2, fun _ => hother⟩))
        have hid : other.externalId = event.externalId := (Prod.mk.inj (toLex.injective hsame)).2
        obtain rfl := List.inj_on_of_nodup_map db.eventKeys hqualifies.mem htakes.qualifies.mem hid
        rfl

/-! ## Over all months -/

/-- The credits of a month that some manager has. -/
def managerCredits (db : Database) (department : Department) (mode : Option CompetitionMode)
    (k : ActivityMetric × String) (n : ℤ) : List Activity :=
  (credited db department mode (monthPeriod n) (monthPeriod n)).filter fun event =>
    event.key = k ∧ event.actorId.isSome

theorem mem_managerCredits {n : ℤ} {activity : Activity} : activity ∈ managerCredits db department mode k n ↔
    (activity ∈ credited db department mode (monthPeriod n) (monthPeriod n) ∧ activity.key = k) ∧
      activity.actorId.isSome := by
  rw [managerCredits, List.mem_filter, decide_eq_true_eq, and_assoc]

theorem length_managerCredits (hunique : isUnique department mode k.1 = true) (n : ℤ) :
    (managerCredits db department mode k n).length ≤ 1 := by
  have hsplit : managerCredits db department mode k n =
      ((credited db department mode (monthPeriod n) (monthPeriod n)).filter fun event => event.key = k).filter
        fun event => event.actorId.isSome := by
    rw [managerCredits, List.filter_filter]
    simp [Bool.and_comm]
  rw [hsplit, credited_key hunique]
  refine List.length_filter_le _ _ |>.trans ?_
  split_ifs
  · exact Nat.zero_le 1
  · cases (activities db department (monthPeriod n)).find? _ <;> simp

/-- A manager's credit leaves none for the later months. -/
theorem no_later_credit (hunique : isUnique department mode k.1 = true) {n n' : ℤ} (hlt : n < n')
    {activity activity' : Activity} (h : activity ∈ managerCredits db department mode k n) :
    activity' ∉ managerCredits db department mode k n' := by
  intro h'
  obtain ⟨hcredited, hactor⟩ := mem_managerCredits.1 h
  obtain ⟨-, event, htakes, hmonth, rfl, -⟩ := (mem_credited_iff hunique).1 hcredited
  obtain ⟨-, event', -, hmonth', -, hfirst⟩ := (mem_credited_iff hunique).1 (mem_managerCredits.1 h').1
  have hnamed : event.createdBy ≠ none := by
    intro hnone
    have hnobody : (creditOf db k event).actorId = none := by rw [creditOf, hnone]; rfl
    rw [hnobody] at hactor
    cases hactor
  have hearlier : event.createdAt < event'.createdAt := by
    have hstarts : (monthPeriod n).finish ≤ (monthPeriod n').start := by
      have hmono := strictMono_monthFirst.monotone (Int.add_one_le_of_lt hlt)
      change dayStart _ ≤ dayStart _
      unfold dayStart day
      omega
    exact hmonth.2.trans_le (hstarts.trans hmonth'.1)
  exact hfirst event ⟨htakes.qualifies, htakes.notSystem, fun h => absurd h hnamed⟩ (before_of_lt hearlier)

theorem sum_managerCredits (hunique : isUnique department mode k.1 = true) (months : Finset ℤ) :
    ∑ n ∈ months, (managerCredits db department mode k n).length ≤ 1 := by
  by_cases hsome : ∃ n ∈ months, managerCredits db department mode k n ≠ []
  · obtain ⟨n, hn, hne⟩ := hsome
    obtain ⟨activity, hactivity⟩ := List.exists_mem_of_ne_nil _ hne
    rw [Finset.sum_eq_single_of_mem n hn]
    · exact length_managerCredits hunique n
    · intro n' _ hother
      refine List.length_eq_zero_iff.2 (List.eq_nil_iff_forall_not_mem.2 fun activity' hactivity' => ?_)
      rcases lt_or_gt_of_ne hother with hlt | hlt
      · exact no_later_credit hunique hlt hactivity' hactivity
      · exact no_later_credit hunique hlt hactivity hactivity'
  · rw [Finset.sum_eq_zero]
    · exact Nat.zero_le 1
    · intro n hn
      by_contra hne
      exact hsome ⟨n, hn, fun hnil => hne (List.length_eq_zero_iff.2 hnil)⟩

/-- Where every event names its user, the first one by somebody else than the automation is credited. -/
theorem mem_credited_iff_of_named (hunique : isUnique department mode k.1 = true)
    (hnamed : ∀ event ∈ db.events, event.createdBy ≠ none) {activity : Activity} :
    activity ∈ credited db department mode month month ∧ activity.key = k ↔
      k.2 ∈ db.shipping.deals.map FactDeal.dealId ∧ ∃ event, Qualifies db department k event ∧
        event.createdBy ≠ some "0" ∧ month.has event.createdAt ∧ activity = creditOf db k event ∧
        ∀ earlier, Qualifies db department k earlier → Before earlier event → earlier.createdBy = some "0" := by
  rw [mem_credited_iff hunique]
  have htakes : ∀ {event}, Takes db department month k event ↔
      Qualifies db department k event ∧ event.createdBy ≠ some "0" := fun {event} =>
    ⟨fun h => ⟨h.qualifies, h.notSystem⟩, fun h => ⟨h.1, h.2, fun hnone => absurd hnone (hnamed event h.1.mem)⟩⟩
  refine and_congr_right fun _ => exists_congr fun event => ?_
  rw [htakes, and_assoc]
  refine and_congr_right fun _ => and_congr_right fun _ => and_congr_right fun _ => and_congr_right fun _ => ?_
  refine forall_congr' fun earlier => ?_
  rw [htakes]
  constructor
  · intro h hqualifies hbefore
    by_contra hsystem
    exact h ⟨hqualifies, hsystem⟩ hbefore
  · rintro h ⟨hqualifies, hsystem⟩ hbefore
    exact hsystem (h hqualifies hbefore)

end Credit

/-! ## Credits and totals -/

/-- Over all months a manager is credited at most once for a deal. A month credits the first event that takes the
credit, which is the first one not by the automation where every event names its user; what is credited in a period
is what the month credits there. Over all managers a total is the sum of its rows. -/
theorem unique_credit (db : Database) (department : Department) (mode : Option CompetitionMode)
    (k : ActivityMetric × String) (hunique : isUnique department mode k.1 = true) :
    (∀ months : Finset ℤ, ∑ n ∈ months, (managerCredits db department mode k n).length ≤ 1) ∧
    (∀ month activity, activity ∈ credited db department mode month month ∧ activity.key = k ↔
      k.2 ∈ db.shipping.deals.map FactDeal.dealId ∧ ∃ event, Takes db department month k event ∧
        month.has event.createdAt ∧ activity = creditOf db k event ∧
        ∀ earlier, Takes db department month k earlier → ¬ Before earlier event) ∧
    ((∀ event ∈ db.events, event.createdBy ≠ none) → ∀ month activity,
      (activity ∈ credited db department mode month month ∧ activity.key = k ↔
        k.2 ∈ db.shipping.deals.map FactDeal.dealId ∧ ∃ event, Qualifies db department k event ∧
          event.createdBy ≠ some "0" ∧ month.has event.createdAt ∧ activity = creditOf db k event ∧
          ∀ earlier, Qualifies db department k earlier → Before earlier event → earlier.createdBy = some "0")) ∧
    (∀ month period, credited db department mode month period =
      (credited db department mode month month).filter fun event => period.has event.occurredAt) ∧
    ∀ view : View, view.allManagers = true → ∀ month period metric,
      (∀ id, fact db department mode view month period id metric = none ↔
        metric = .shipmentMargin ∧ ∀ source, db.finance = some source → source.hasCutoff = false) ∧
      ∀ total, fact db department mode view month period none metric = some total →
        ((rows db department view month).map fun row =>
          (fact db department mode view month period (some row.id) metric).getD 0).sum = total :=
  ⟨sum_managerCredits hunique, fun _ _ => mem_credited_iff hunique,
    fun hnamed _ _ => mem_credited_iff_of_named hunique hnamed, credited_eq_filter mode,
    fun _ hall _ _ _ => ⟨fun _ => fact_eq_none, fun _ => fact_total hall⟩⟩

/-- Without a finance source no Rivile link names a manager. -/
theorem unnamedFirst_financeManagers : ∀ source, (none : Option Finance) = some source → ∀ managerId,
    some managerId ∈ source.links → managerId ∈ [CrmUser.mk "manager" "1" (some "group")].map CrmUser.id :=
  fun _ h => by cases h

/-- On 6 October 2026 a deal was offered by nobody known and a day later by the manager. -/
def unnamedFirst : Database where
  shipping :=
    { deals := [⟨"deal", "sales", none, 100⟩]
      transitions := []
      links := []
      dealKeys := by decide
      linkKeys := by decide }
  events := [⟨"1", "lead_status_changed", some "deal", 1_791_270_000_000, none, some "12", some "1"⟩,
    ⟨"2", "lead_status_changed", some "deal", 1_791_356_400_000, some "1", some "12", some "1"⟩]
  users := [⟨"manager", "1", some "group"⟩]
  stageKeys := fun _ => some ("12", "1")
  finance := none
  eventKeys := by decide
  userKeys := List.nodup_singleton "manager"
  linkManagers := by decide
  financeManagers := unnamedFirst_financeManagers

def offerDepartment : Department := ⟨"csm", "group", ⟨"assembly", "shipped"⟩, [(.proposals, "offer")]⟩

theorem unique_credit_sample : ∑ n ∈ {24_321, 24_322},
    (managerCredits unnamedFirst offerDepartment (some .uniqueDeal) (.proposals, "deal") n).length ≤ 1 :=
  (unique_credit unnamedFirst offerDepartment (some .uniqueDeal) (.proposals, "deal") (by decide)).1 _

/-- The only event with a manager gives him no credit. -/
theorem unnamed_event_takes_credit :
    (activities unnamedFirst offerDepartment (monthPeriod 24_321)).filterMap Activity.actorId = ["manager"] ∧
      managerCredits unnamedFirst offerDepartment (some .uniqueDeal) (.proposals, "deal") 24_321 = [] := by
  decide

end AmoAnalytics.Workspaces.Performance
