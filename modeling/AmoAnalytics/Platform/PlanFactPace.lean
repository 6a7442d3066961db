import AmoAnalytics.Platform.PlanFact

/-!
# The pace of a plan

The working days that have passed and those that remain, the plan to date and the plan of the current day. The plan to
date grows from nothing to the whole plan. The plan of the day catches up what the days before have left open, so who
reaches it on the last working day of the month reaches the plan of the month, as far as the shown values are not
rounded down.
-/

namespace AmoAnalytics.Platform.PlanFact

open Common CivilDate CountedTime
open Reports.RevenueForecast (toFixed2)

/-! ## Rounded values -/

theorem toFixed2_nonneg {v : ℚ} (h : 0 ≤ v) : toFixed2 v = (⌊v * 100 + 1 / 2⌋ : ℚ) / 100 := if_neg h.not_gt

theorem toFixed2_mono {v w : ℚ} (h : v ≤ w) : toFixed2 v ≤ toFixed2 w := by
  have hfloor : ∀ {a b : ℚ}, a ≤ b → (⌊a * 100 + 1 / 2⌋ : ℚ) ≤ ⌊b * 100 + 1 / 2⌋ := fun hab =>
    Int.cast_le.2 (Int.floor_le_floor (by linarith))
  have hpos : ∀ {a : ℚ}, 0 ≤ a → (0 : ℚ) ≤ ⌊a * 100 + 1 / 2⌋ := fun ha => by
    exact_mod_cast Int.floor_nonneg.2 (by linarith)
  unfold toFixed2
  split_ifs with hv hw hw
  · have := hfloor (neg_le_neg h)
    linarith
  · have h₁ := hpos (show 0 ≤ -v by linarith)
    have h₂ := hpos (not_lt.1 hw)
    linarith
  · linarith
  · have := hfloor h
    linarith

/-- A whole number of cents is kept. -/
theorem toFixed2_cents (n : ℤ) : toFixed2 (n / 100) = n / 100 := by
  have hfloor : ∀ m : ℤ, ⌊(m : ℚ) / 100 * 100 + 1 / 2⌋ = m := fun m => by
    rw [Int.floor_eq_iff]
    constructor <;> linarith
  unfold toFixed2
  split_ifs with hneg
  · have hminus : -((n : ℚ) / 100) = (-n : ℤ) / 100 := by
      push_cast
      ring
    rw [hminus, hfloor]
    push_cast
    ring
  · rw [hfloor]

theorem toFixed2_zero : toFixed2 0 = 0 := by
  have h := toFixed2_cents 0
  rwa [Int.cast_zero, zero_div] at h

/-- At most half a cent is lost. -/
theorem le_toFixed2 {v : ℚ} (h : 0 ≤ v) : v ≤ toFixed2 v + 1 / 200 := by
  have := Int.sub_one_lt_floor (v * 100 + 1 / 2)
  rw [toFixed2_nonneg h]
  linarith

theorem roundPlanFactValue_mono (metric : PlanFactMetric) {v w : ℚ} (h : v ≤ w) :
    roundPlanFactValue metric v ≤ roundPlanFactValue metric w := by
  unfold roundPlanFactValue
  split_ifs
  · exact Int.cast_le.2 (Int.ceil_le_ceil h)
  · exact toFixed2_mono h

/-! ## The days of a month -/

/-- Every month has a working day, for of three days in a row one is. -/
theorem workdays_month_pos (m : ℤ) : 0 < workdays (monthFirst m) (monthFirst (m + 1)) := by
  have hlength := monthFirst_add_le m
  have hone : ∃ date, monthFirst m ≤ date ∧ date < monthFirst (m + 1) ∧ MondayToFriday date := by
    by_cases h₀ : MondayToFriday (monthFirst m)
    · exact ⟨_, le_rfl, by omega, h₀⟩
    by_cases h₁ : MondayToFriday (monthFirst m + 1)
    · exact ⟨_, by omega, by omega, h₁⟩
    refine ⟨monthFirst m + 2, by omega, by omega, ?_⟩
    unfold MondayToFriday at *
    omega
  obtain ⟨date, hfirst, hlast, hworkday⟩ := hone
  exact Finset.card_pos.2 ⟨date, Finset.mem_filter.2 ⟨Finset.mem_Ico.2 ⟨hfirst, hlast⟩, hworkday⟩⟩

theorem workdays_eq_zero {a b : ℤ} (h : ∀ date, a ≤ date → date < b → ¬ MondayToFriday date) : workdays a b = 0 := by
  have hzero := spent_eq_zero h
  unfold spent at hzero
  exact_mod_cast hzero

/-- No working day of the month has come by the day. -/
def NoWorkdayUntil (m d : ℤ) : Prop := ∀ date ≤ d, monthOf date = m → ¬ MondayToFriday date

/-- No working day of the month is left after the day. -/
def NoWorkdayAfter (m d : ℤ) : Prop := ∀ date > d, monthOf date = m → ¬ MondayToFriday date

section Calendar

variable {m d d' : ℤ} {calendar calendar' : Calendar}

/-- The days worked and the days that remain share the current day, if it is a working day. -/
theorem CalendarOf.worked_add_remaining (h : CalendarOf m d calendar) (hcurrent : calendar.isCurrentMonth = true) :
    calendar.workedDays + calendar.remainingWorkdaysIncludingToday =
      calendar.workdaysInMonth + if calendar.isTodayWorkday then 1 else 0 := by
  have hm := h.isCurrentMonth.1 hcurrent
  obtain ⟨hfirst, hnext⟩ := monthOf_eq_iff.1 hm
  have hsplit := workdays_add hfirst hnext.le
  have htoday := workdays_add hfirst (show d ≤ d + 1 by omega)
  rw [workdays_succ] at htoday
  rw [h.workedDays, h.remaining, if_pos hm, h.workdaysInMonth, min_eq_left (by omega),
    if_congr h.isTodayWorkday rfl rfl]
  omega

theorem CalendarOf.remaining_other (h : CalendarOf m d calendar) (hother : calendar.isCurrentMonth = false) :
    calendar.remainingWorkdaysIncludingToday = 0 := by
  rw [h.remaining, if_neg]
  intro hm
  rw [h.isCurrentMonth.2 hm] at hother
  cases hother

theorem CalendarOf.workedDays_mono (h : CalendarOf m d calendar) (h' : CalendarOf m d' calendar') (hle : d ≤ d') :
    calendar.workedDays ≤ calendar'.workedDays := by
  rw [h.workedDays, h'.workedDays]
  exact workdays_mono (min_le_min_right _ (by omega))

theorem CalendarOf.workedDays_before (h : CalendarOf m d calendar)
    (hbefore : NoWorkdayUntil m d) : calendar.workedDays = 0 := by
  rw [h.workedDays]
  refine workdays_eq_zero fun date hfirst hlast => ?_
  exact hbefore date (by omega) (monthOf_eq_iff.2 ⟨hfirst, by omega⟩)

theorem CalendarOf.workedDays_over (h : CalendarOf m d calendar)
    (hover : NoWorkdayAfter m d) : calendar.workedDays = calendar.workdaysInMonth := by
  rw [h.workedDays, h.workdaysInMonth]
  rcases le_total (monthFirst (m + 1)) (d + 1) with hle | hle
  · rw [min_eq_right hle]
  · rw [min_eq_left hle]
    rcases le_total (monthFirst m) (d + 1) with hstarted | hlater
    · have hrest : workdays (d + 1) (monthFirst (m + 1)) = 0 := workdays_eq_zero fun date hfirst hlast =>
        hover date (by omega) (monthOf_eq_iff.2 ⟨by omega, hlast⟩)
      rw [workdays_add hstarted hle, hrest, add_zero]
    · have hrest : workdays (monthFirst m) (monthFirst (m + 1)) = 0 := workdays_eq_zero fun date hfirst hlast =>
        hover date (by omega) (monthOf_eq_iff.2 ⟨hfirst, hlast⟩)
      exact absurd hrest (workdays_month_pos m).ne'

theorem CalendarOf.workdaysInMonth_pos (h : CalendarOf m d calendar) : 0 < calendar.workdaysInMonth :=
  h.workdaysInMonth ▸ workdays_month_pos m

/-- On the last working day of the month it alone remains. -/
theorem CalendarOf.remaining_last (h : CalendarOf m d calendar) (hm : monthOf d = m) (hworkday : MondayToFriday d)
    (hlast : NoWorkdayAfter m d) : calendar.remainingWorkdaysIncludingToday = 1 := by
  obtain ⟨hfirst, hnext⟩ := monthOf_eq_iff.1 hm
  have hrest : workdays (d + 1) (monthFirst (m + 1)) = 0 := workdays_eq_zero fun date hdate hend =>
    hlast date (by omega) (monthOf_eq_iff.2 ⟨by omega, hend⟩)
  rw [h.remaining, if_pos hm, workdays_add (show d ≤ d + 1 by omega) (by omega), hrest, workdays_succ,
    if_pos hworkday]

end Calendar

/-! ## The plan to date -/

section Plan

variable {m d d' : ℤ} {calendar calendar' : Calendar} {plan : ℚ}

theorem upToDatePlanRaw_mono (h : CalendarOf m d calendar) (h' : CalendarOf m d' calendar') (hle : d ≤ d')
    (hplan : 0 ≤ plan) : upToDatePlanRaw plan calendar ≤ upToDatePlanRaw plan calendar' := by
  have hbase : 0 ≤ baseDailyPlan plan calendar' := div_nonneg hplan (Nat.cast_nonneg _)
  have hsame : baseDailyPlan plan calendar = baseDailyPlan plan calendar' := by
    rw [baseDailyPlan, baseDailyPlan, h.workdaysInMonth, h'.workdaysInMonth]
  rw [upToDatePlanRaw, upToDatePlanRaw, hsame]
  exact mul_le_mul_of_nonneg_left (Nat.cast_le.2 (h.workedDays_mono h' hle)) hbase

theorem upToDatePlanRaw_before (h : calendar.workedDays = 0) : upToDatePlanRaw plan calendar = 0 := by
  rw [upToDatePlanRaw, h, Nat.cast_zero, mul_zero]

theorem upToDatePlanRaw_over (h : calendar.workedDays = calendar.workdaysInMonth)
    (hpos : 0 < calendar.workdaysInMonth) : upToDatePlanRaw plan calendar = plan := by
  rw [upToDatePlanRaw, baseDailyPlan, h, max_eq_left (by omega)]
  exact div_mul_cancel₀ plan (Nat.cast_ne_zero.2 hpos.ne')

end Plan

/-! ## The plan of the day -/

/-- The facts of the days of the month before a day. -/
def factsBefore (facts : ℤ → ℚ) (first d : ℤ) : ℚ :=
  ((List.range (d - first).toNat).map fun i : ℕ => facts (first + i)).sum

theorem factsBefore_succ (facts : ℤ → ℚ) {first d : ℤ} (h : first ≤ d) :
    factsBefore facts first (d + 1) = factsBefore facts first d + facts d := by
  have hlength : (d + 1 - first).toNat = (d - first).toNat + 1 := by omega
  have hlast : first + ((d - first).toNat : ℤ) = d := by omega
  rw [factsBefore, hlength, List.range_succ, List.map_append, List.sum_append, List.map_singleton,
    List.sum_singleton, hlast, factsBefore]

/-- On a day of its own the plan of the day is at least what is left of the plan. -/
theorem le_todayPlanRaw {plan before today : ℚ} {calendar : Calendar}
    (hremaining : calendar.remainingWorkdaysIncludingToday = 1)
    (h : todayPlanRaw plan (some before) calendar = some today) : 0 ≤ plan → 0 ≤ today ∧ plan - before ≤ today := by
  intro hplan
  unfold todayPlanRaw at h
  split_ifs at h with hday
  obtain rfl := Option.some.inj h
  rw [hremaining, max_self, Nat.cast_one, div_one, Option.getD_some]
  exact ⟨le_max_of_le_left (div_nonneg hplan (Nat.cast_nonneg _)), le_max_right _ _⟩

/-- What the rounding of the plan of the day can lose. -/
def lost (metric : PlanFactMetric) : ℚ := if metric.unit = .number then 0 else 1 / 200

theorem le_roundPlanFactValue (metric : PlanFactMetric) {v : ℚ} (h : 0 ≤ v) :
    v ≤ roundPlanFactValue metric v + lost metric := by
  unfold roundPlanFactValue lost
  split_ifs
  · have := Int.le_ceil v
    linarith
  · exact le_toFixed2 h

/-- Nothing is lost over a whole number of cents. -/
theorem cents_le_roundPlanFactValue (metric : PlanFactMetric) {v : ℚ} {n : ℤ} (h : (n : ℚ) / 100 ≤ v) :
    (n : ℚ) / 100 ≤ roundPlanFactValue metric v := by
  unfold roundPlanFactValue
  split_ifs
  · exact h.trans (Int.le_ceil v)
  · calc (n : ℚ) / 100 = toFixed2 (n / 100) := (toFixed2_cents n).symm
      _ ≤ toFixed2 v := toFixed2_mono h

/-! ## The pace that is shown -/

section Pace

variable {metric : PlanFactMetric} {plan : ℚ}

theorem planFactPace_additive (hkind : metric.kind = .additive) (hplan : plan ≠ 0)
    (factMonth factToday before : Option ℚ) (calendar : Calendar) :
    (planFactPace metric (some plan) factMonth factToday before calendar).plan = some
      (roundPlanFactValue metric plan) ∧
    (planFactPace metric (some plan) factMonth factToday before calendar).upToDatePlan =
      some (roundPlanFactValue metric (upToDatePlanRaw plan calendar)) ∧
    (planFactPace metric (some plan) factMonth factToday before calendar).todayPlan =
      (todayPlanRaw plan before calendar).map (roundPlanFactValue metric) := by
  have hsome : (some plan).filter (fun p => decide (p ≠ 0)) = some plan := by simp [hplan]
  have hother : ¬ metric.kind = .conversion := by
    rw [hkind]
    exact MetricKind.noConfusion
  unfold planFactPace
  rw [hsome]
  simp only [if_neg hother, and_self]

/-- **The pace of a plan.** In the current month the days worked and the working days that remain are the working
days of the month and the current one, if it is one; in another month none remain. The plan to date never falls from
day to day, before and after it is rounded; it is nothing before the first working day and the plan from the last one
on. On the last working day a fact that reaches the plan of the day before it is rounded brings the month to the plan;
one that reaches the shown plan of the day does for a count and for whole cents, and misses it by half a cent at
most. -/
theorem plan_pace {offset : ℤ → ℤ} {since month : ℤ} (h : FixedFrom offset since)
    (hmonth : since ≤ dayStart (monthFirst (moscowMonth month))) (hkind : metric.kind = .additive)
      (hplan : 0 < plan) :
    (∀ now ≥ since, ∃ calendar, Yields (planFactCalendar offset month now) calendar ∧
      (calendar.isCurrentMonth = true → calendar.workedDays + calendar.remainingWorkdaysIncludingToday =
        calendar.workdaysInMonth + if calendar.isTodayWorkday then 1 else 0) ∧
      (calendar.isCurrentMonth = false → calendar.remainingWorkdaysIncludingToday = 0) ∧
      (NoWorkdayUntil (moscowMonth month) (moscowDay now) → upToDatePlanRaw plan calendar = 0) ∧
      (NoWorkdayAfter (moscowMonth month) (moscowDay now) → upToDatePlanRaw plan calendar = plan) ∧
      ∀ factMonth factToday before,
        (planFactPace metric (some plan) factMonth factToday before calendar).plan =
          some (roundPlanFactValue metric plan) ∧
        (planFactPace metric (some plan) factMonth factToday before calendar).upToDatePlan =
          some (roundPlanFactValue metric (upToDatePlanRaw plan calendar))) ∧
    (∀ now ≥ since, ∀ now' ≥ now, ∀ calendar calendar', Yields (planFactCalendar offset month now) calendar →
      Yields (planFactCalendar offset month now') calendar' →
      upToDatePlanRaw plan calendar ≤ upToDatePlanRaw plan calendar' ∧
        roundPlanFactValue metric (upToDatePlanRaw plan calendar) ≤
          roundPlanFactValue metric (upToDatePlanRaw plan calendar')) ∧
    ∀ now ≥ since, ∀ calendar, Yields (planFactCalendar offset month now) calendar →
      moscowMonth now = moscowMonth month → MondayToFriday (moscowDay now) →
      NoWorkdayAfter (moscowMonth month) (moscowDay now) → ∀ facts : ℤ → ℚ,
      let before := factsBefore facts (monthFirst (moscowMonth month)) (moscowDay now)
      let after := factsBefore facts (monthFirst (moscowMonth month)) (moscowDay now + 1)
      ∃ today, todayPlanRaw plan (some before) calendar = some today ∧
        (∀ factMonth factToday, (planFactPace metric (some plan) factMonth factToday
          (some before) calendar).todayPlan =
          some (roundPlanFactValue metric today)) ∧
        (today ≤ facts (moscowDay now) → plan ≤ after) ∧
        (roundPlanFactValue metric today ≤ facts (moscowDay now) → plan ≤ after + lost metric) ∧
        ((∃ cents : ℤ, plan - before = cents / 100) → roundPlanFactValue metric today ≤ facts (moscowDay now) →
          plan ≤ after) := by
  have hcalendar : ∀ now ≥ since, ∀ calendar, Yields (planFactCalendar offset month now) calendar →
      CalendarOf (moscowMonth month) (moscowDay now) calendar := fun now hnow calendar hyields => by
    obtain ⟨calendar', hyields', hof⟩ := planFactCalendar_yields h hmonth hnow
    rwa [hyields.unique hyields']
  refine ⟨fun now hnow => ?_, fun now hnow now' hnow' calendar calendar' hc hc' => ?_,
    fun now hnow calendar hc hm hworkday hlast facts => ?_⟩
  · obtain ⟨calendar, hyields, hof⟩ := planFactCalendar_yields h hmonth hnow
    refine ⟨calendar, hyields, hof.worked_add_remaining, hof.remaining_other, fun hbefore => ?_, fun hover => ?_,
      fun factMonth factToday before => ?_⟩
    · exact upToDatePlanRaw_before (hof.workedDays_before hbefore)
    · exact upToDatePlanRaw_over (hof.workedDays_over hover) hof.workdaysInMonth_pos
    · obtain ⟨hshown, hdate, -⟩ := planFactPace_additive hkind hplan.ne' factMonth factToday before calendar
      exact ⟨hshown, hdate⟩
  · have hle : moscowDay now ≤ moscowDay now' := Int.ediv_le_ediv (by decide) (by omega)
    have hraw := upToDatePlanRaw_mono (hcalendar now hnow _ hc) (hcalendar now' (by omega) _ hc') hle hplan.le
    exact ⟨hraw, roundPlanFactValue_mono metric hraw⟩
  · have hof := hcalendar now hnow calendar hc
    intro before after
    have hafter : after = before + facts (moscowDay now) :=
      factsBefore_succ facts (monthOf_eq_iff.1 (show monthOf (moscowDay now) = moscowMonth month from hm)).1
    have hcurrent : (calendar.isCurrentMonth && calendar.isTodayWorkday) = true := by
      rw [hof.isCurrentMonth.2 hm, hof.isTodayWorkday.2 hworkday]
      rfl
    obtain ⟨today, htoday⟩ : ∃ today, todayPlanRaw plan (some before) calendar = some today :=
      ⟨_, if_pos hcurrent⟩
    obtain ⟨hpos, hleft⟩ := le_todayPlanRaw (hof.remaining_last hm hworkday hlast) htoday hplan.le
    refine ⟨today, htoday, fun factMonth factToday => ?_, fun hreached => ?_, fun hreached => ?_,
      fun hcents hreached => ?_⟩
    · rw [(planFactPace_additive hkind hplan.ne' factMonth factToday (some before) calendar).2.2, htoday]
      rfl
    · linarith
    · have := le_roundPlanFactValue metric hpos
      linarith
    · obtain ⟨cents, hcents⟩ := hcents
      have := cents_le_roundPlanFactValue metric (hcents ▸ hleft)
      linarith

/-- Money that was shipped. -/
def shippedMoney : PlanFactMetric := ⟨"sales_shipped_amount", "Сумма отгрузок", .money, .sales, .additive⟩

/-- The pace of a plan of 100 for August 2026, on its last day. -/
theorem plan_pace_sample : ∃ calendar, Yields (planFactCalendar
    (fun _ => 3 * hour) 1_785_531_600_000 1_788_166_800_000)
    calendar ∧ (calendar.isCurrentMonth = true → calendar.workedDays + calendar.remainingWorkdaysIncludingToday =
      calendar.workdaysInMonth + if calendar.isTodayWorkday then 1 else 0) ∧
    (NoWorkdayAfter (moscowMonth 1_785_531_600_000) (moscowDay 1_788_166_800_000) →
      upToDatePlanRaw 100 calendar = 100) := by
  obtain ⟨calendar, hyields, hdays, -, -, hover, -⟩ := (@plan_pace shippedMoney 100 _ _ 1_785_531_600_000
    fixedFrom_firstCentury (by decide +kernel) rfl (by norm_num)).1 1_788_166_800_000 (by decide)
  exact ⟨calendar, hyields, hdays, hover⟩

/-- In September no working day of August remains, though the current day is one; and on the last working day of
August a plan of 100.004 is shown as 100.00 for the day, so that a fact of 100 reaches it and not the plan. -/
theorem plan_pace_fails :
    ((planFactCalendar (fun _ => 3 * hour) 1_785_531_600_000 1_788_253_200_000 40).map fun calendar =>
      (calendar.workedDays, calendar.remainingWorkdaysIncludingToday, calendar.workdaysInMonth,
        calendar.isTodayWorkday)) = some (21, 0, 21, true) ∧
    ((planFactCalendar (fun _ => 3 * hour) 1_785_531_600_000 1_788_166_800_000 40).map fun calendar =>
      (calendar.isCurrentMonth, calendar.remainingWorkdaysIncludingToday,
        (planFactPace shippedMoney (some 100.004) (some 100) (some 100) (some 0) calendar).todayPlan)) =
      some (true, 1, some 100) ∧ (0 : ℚ) + 100 < 100.004 := by
  decide +kernel

end Pace

end AmoAnalytics.Platform.PlanFact
