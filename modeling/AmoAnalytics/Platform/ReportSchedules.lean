import AmoAnalytics.Lib.Run
import AmoAnalytics.Platform.PlanFactCalendar

/-!
# Schedules of reports

`nextScheduleRun` computes the next due time of a schedule from the moment of the run, not from the due time that the
run is for. A run on another day than the due one moves a weekly or a monthly schedule to that day; a run on a day of
the schedule leaves its cadence as it was chosen.
-/

namespace AmoAnalytics.Platform.Schedules

open Common CivilDate PlanFact Run

/-! ## `platform.service.ts` -/

inductive ReportScheduleFrequency
  | DAILY
  | WEEKLY
  | MONTHLY
  | CUSTOM_CRON
deriving DecidableEq

/-- The two numbers of a text such as 09:00. -/
structure TimeOfDay where
  hours : ℤ
  minutes : ℤ
deriving DecidableEq

structure ReportSchedule where
  frequency : ReportScheduleFrequency
  timeOfDay : TimeOfDay
  enabled : Bool := true
  lastRunAt : Option ℤ := none
  nextRunAt : Option ℤ
deriving DecidableEq

section Functions

variable (offset : ℤ → ℤ)

def nextScheduleRun (frequency : ReportScheduleFrequency) (timeOfDay : TimeOfDay) (start : ℤ) : ℤ :=
  let hours := min (max timeOfDay.hours 0) 23
  let minutes := min (max timeOfDay.minutes 0) 59
  let parts := moscowParts offset start
  let next := moscowDate parts.year parts.month parts.day hours minutes 0 0
  if next ≤ start then
    match frequency with
    | .WEEKLY => moscowDate parts.year parts.month (parts.day + 7) hours minutes 0 0
    | .MONTHLY =>
      moscowDate parts.year (parts.month + 1) (min parts.day (utcDate (utc parts.year (parts.month + 1) 0 0))) hours
        minutes 0 0
    | .DAILY | .CUSTOM_CRON => moscowDate parts.year parts.month (parts.day + 1) hours minutes 0 0
  else next

/-- A schedule with its history: the due times it has had and those of its scheduled runs, the last one first. -/
structure ScheduleHistory where
  schedule : ReportSchedule
  clock : ℤ
  dues : List ℤ
  delivered : List ℤ := []
deriving DecidableEq

def createSchedule (frequency : ReportScheduleFrequency) (timeOfDay : TimeOfDay) (now : ℤ) : ScheduleHistory :=
  let nextRunAt := nextScheduleRun offset frequency timeOfDay now
  { schedule := { frequency, timeOfDay, nextRunAt := some nextRunAt }, clock := now, dues := [nextRunAt] }

/-- A run that reports, skips or has no template; the due time is the next one in each case. -/
def deliverSchedule (history : ScheduleHistory) (now : ℤ) (manual : Bool) : ScheduleHistory :=
  let nextRunAt := nextScheduleRun offset history.schedule.frequency history.schedule.timeOfDay now
  { schedule := { history.schedule with lastRunAt := some now, nextRunAt := some nextRunAt }
    clock := now
    dues := if history.schedule.nextRunAt = some nextRunAt then history.dues else nextRunAt :: history.dues
    delivered := if manual then history.delivered else history.schedule.nextRunAt.toList ++ history.delivered }

inductive ScheduleAct
  /-- A tick of `processSchedules`, by which the run is done or throws. -/
  | tick (now : ℤ) (throws : Bool)
  /-- `runScheduleNow`. -/
  | manual (now : ℤ) (throws : Bool)

def ScheduleAct.now : ScheduleAct → ℤ
  | .tick now _ | .manual now _ => now

def isDue (schedule : ReportSchedule) (now : ℤ) : Bool := schedule.enabled && schedule.nextRunAt.all (· ≤ now)

/-- The act runs the schedule. -/
def runs (history : ScheduleHistory) : ScheduleAct → Bool
  | .tick now throws => isDue history.schedule now && !throws
  | .manual _ throws => !throws

def scheduleStep (history : ScheduleHistory) (act : ScheduleAct) : Option ScheduleHistory :=
  if act.now < history.clock then none
  else if runs history act then
    some (deliverSchedule offset history act.now (match act with
      | .tick _ _ => false
      | .manual _ _ => true))
  else some { history with clock := act.now }

end Functions

/-! ## Cadence -/

/-- The day of a date within its month. -/
def dayOfMonth (date : ℤ) : ℤ := date - monthFirst (monthOf date) + 1

def monthLength (month : ℤ) : ℤ := monthFirst (month + 1) - monthFirst month

/-- The chosen day of a month, or the last one of a shorter month. -/
def chosenDay (first month : ℤ) : ℤ := min (dayOfMonth (moscowDay first)) (monthLength month)

/-- How a due time follows the one before. -/
def Follows (frequency : ReportScheduleFrequency) (first later earlier : ℤ) : Prop :=
  match frequency with
  | .WEEKLY => moscowDay later % 7 = moscowDay earlier % 7 ∧ earlier + 7 * day ≤ later
  | .MONTHLY =>
    moscowMonth later ≠ moscowMonth earlier ∧ dayOfMonth (moscowDay later) = chosenDay first (moscowMonth later)
  | .DAILY | .CUSTOM_CRON => moscowDay later ≠ moscowDay earlier

/-- Each due time follows the one before, and no two scheduled runs are for one period. -/
structure Cadence (first : ℤ) (history : ScheduleHistory) : Prop where
  consecutive : history.dues.IsChain (Follows history.schedule.frequency first)
  once : history.delivered.Pairwise (Follows history.schedule.frequency first)

/-- A moment at which a run keeps the cadence: in a weekly schedule on the weekday of the first due time, in a monthly
one on a day that gives the chosen day of the month of the next due time. -/
def OnSchedule (frequency : ReportScheduleFrequency) (clock first now : ℤ) : Prop :=
  match frequency with
  | .WEEKLY => moscowDay now % 7 = moscowDay first % 7
  | .MONTHLY =>
    if moscowClock now < clock then dayOfMonth (moscowDay now) = chosenDay first (moscowMonth now)
    else min (dayOfMonth (moscowDay now)) (monthLength (moscowMonth now + 1)) = chosenDay first (moscowMonth now + 1)
  | .DAILY | .CUSTOM_CRON => True

/-- The time of day in milliseconds. -/
def TimeOfDay.clock (timeOfDay : TimeOfDay) : ℤ :=
  min (max timeOfDay.hours 0) 23 * hour + min (max timeOfDay.minutes 0) 59 * 60_000

/-- The runs of the schedule are at such moments. -/
def RunsOnSchedule (first : ℤ) (history : ScheduleHistory) (act : ScheduleAct) : Prop :=
  runs history act = true →
    OnSchedule history.schedule.frequency history.schedule.timeOfDay.clock first act.now

/-! ## Due times -/

theorem TimeOfDay.clock_bounds (timeOfDay : TimeOfDay) : 0 ≤ timeOfDay.clock ∧ timeOfDay.clock < day := by
  unfold TimeOfDay.clock hour day
  omega

/-- The due time of a date. -/
def dueOn (timeOfDay : TimeOfDay) (date : ℤ) : ℤ := dayStart date + timeOfDay.clock

theorem moscowDay_dueOn (timeOfDay : TimeOfDay) (date : ℤ) : moscowDay (dueOn timeOfDay date) = date := by
  obtain ⟨hlow, hhigh⟩ := timeOfDay.clock_bounds
  rw [moscowDay_eq_iff]
  unfold dueOn dayStart at *
  unfold day at *
  omega

theorem dueOn_le_iff (timeOfDay : TimeOfDay) (t : ℤ) :
    dueOn timeOfDay (moscowDay t) ≤ t ↔ timeOfDay.clock ≤ moscowClock t := by
  unfold dueOn dayStart moscowDay moscowClock day
  omega

/-- The date of the due time that follows an instant. -/
def nextDate (frequency : ReportScheduleFrequency) (timeOfDay : TimeOfDay) (t : ℤ) : ℤ :=
  if moscowClock t < timeOfDay.clock then moscowDay t
  else
    match frequency with
    | .WEEKLY => moscowDay t + 7
    | .MONTHLY =>
      monthFirst (moscowMonth t + 1) + min (dayOfMonth (moscowDay t)) (monthLength (moscowMonth t + 1)) - 1
    | .DAILY | .CUSTOM_CRON => moscowDay t + 1

section Parts

variable {offset : ℤ → ℤ} {since t : ℤ}

theorem dayOfMonth_civil (date : ℤ) : (civilFromDays date).2.2 = dayOfMonth date := by
  have hdate := daysFromCivil_civilFromDays date
  have hsplit := daysFromCivil_dayOfMonth (civilFromDays date).1 (civilFromDays date).2.1 (civilFromDays date).2.2
  obtain ⟨hlow, hhigh⟩ := civilFromDays_month date
  have hyear : monthOf date / 12 = (civilFromDays date).1 := by
    unfold monthOf
    omega
  have hmonth : monthOf date % 12 + 1 = (civilFromDays date).2.1 := by
    unfold monthOf
    omega
  unfold dayOfMonth monthFirst
  rw [hyear, hmonth]
  omega

theorem moscowParts_day (h : FixedFrom offset since) (ht : since ≤ t) :
    (moscowParts offset t).day = dayOfMonth (moscowDay t) := by
  rw [← dayOfMonth_civil]
  unfold moscowParts moscowDay
  dsimp only
  rw [local_of_fixed h ht]
  rfl

theorem dayOfMonth_bounds (date : ℤ) : 1 ≤ dayOfMonth date ∧ dayOfMonth date ≤ monthLength (monthOf date) := by
  obtain ⟨hfirst, hnext⟩ := monthFirst_monthOf date
  unfold dayOfMonth monthLength
  omega

theorem monthLength_pos (month : ℤ) : 28 ≤ monthLength month := by
  have := monthFirst_add_le month
  unfold monthLength
  omega

/-- A day of a month, by its number. -/
theorem month_day {month d : ℤ} (hlow : 1 ≤ d) (hhigh : d ≤ monthLength month) :
    monthOf (monthFirst month + d - 1) = month ∧ dayOfMonth (monthFirst month + d - 1) = d := by
  have hmonth : monthOf (monthFirst month + d - 1) = month := by
    rw [monthOf_eq_iff]
    unfold monthLength at hhigh
    omega
  refine ⟨hmonth, ?_⟩
  rw [dayOfMonth, hmonth]
  omega

/-- `Date.UTC` with the day zero is the last day of the month before. -/
theorem utcDate_lastDay (h : FixedFrom offset since) (ht : since ≤ t) :
    utcDate (utc (moscowParts offset t).year ((moscowParts offset t).month + 1) 0 0) =
      monthLength (moscowMonth t + 1) := by
  obtain ⟨hmonth, -, hyear⟩ := moscowParts_month h ht
  have hnumber : 12 * utcYearOf (moscowParts offset t).year + ((moscowParts offset t).month + 1) =
      moscowMonth t + 1 + 1 := by
    rw [utcYearOf, if_neg (by omega)]
    omega
  have hlength := monthLength_pos (moscowMonth t + 1)
  have hlast : monthFirst (moscowMonth t + 1 + 1) + 0 - 1 =
      monthFirst (moscowMonth t + 1) + monthLength (moscowMonth t + 1) - 1 := by
    unfold monthLength
    omega
  rw [utc_month, hnumber, add_zero, utcDate, Int.mul_ediv_cancel _ (by decide), dayOfMonth_civil, hlast]
  exact (month_day (by omega) le_rfl).2

/-- A day counted from that of an instant, by its clock. -/
theorem moscowDate_after (h : FixedFrom offset since) (ht : since ≤ t) (days hours minute : ℤ) :
    moscowDate (moscowParts offset t).year (moscowParts offset t).month ((moscowParts offset t).day + days) hours
      minute 0 0 = dayStart (moscowDay t + days) + (hours * hour + minute * 60_000) := by
  have hutc := utc_days (century_of_fixed h ht) days ((hours - 3) * hour + minute * 60_000 + 0 * 1_000 + 0)
  unfold moscowDate moscowParts moscowDay dayStart
  dsimp only
  rw [local_of_fixed h ht, add_sub_cancel_right, hutc]
  unfold hour
  omega

theorem nextScheduleRun_eq (h : FixedFrom offset since) (ht : since ≤ t) (frequency : ReportScheduleFrequency)
    (timeOfDay : TimeOfDay) :
    nextScheduleRun offset frequency timeOfDay t = dueOn timeOfDay (nextDate frequency timeOfDay t) := by
  have htoday := moscowDate_day h ht (min (max timeOfDay.hours 0) 23) (min (max timeOfDay.minutes 0) 59) 0 0
  have hclock : min (max timeOfDay.hours 0) 23 * hour + min (max timeOfDay.minutes 0) 59 * 60_000 + 0 * 1_000 + 0 =
      timeOfDay.clock := by
    rw [TimeOfDay.clock]
    omega
  have hlater := dueOn_le_iff timeOfDay t
  unfold nextScheduleRun nextDate
  dsimp only
  rw [htoday, hclock, ← dueOn]
  by_cases hpassed : timeOfDay.clock ≤ moscowClock t
  · rw [if_pos (hlater.2 hpassed), if_neg hpassed.not_gt]
    cases frequency with
    | WEEKLY => exact moscowDate_after h ht 7 _ _
    | MONTHLY =>
      rw [utcDate_lastDay h ht, moscowParts_day h ht, moscowDate_month h ht, hclock]
      rfl
    | DAILY | CUSTOM_CRON => exact moscowDate_after h ht 1 _ _
  · rw [if_neg fun hle => hpassed (hlater.1 hle), if_pos (not_le.1 hpassed)]

end Parts

/-! ## The next date -/

section NextDate

variable {frequency : ReportScheduleFrequency} {timeOfDay : TimeOfDay} {first t t' : ℤ}

/-- A date of the schedule, by the day of its first due time. -/
def OnDate (frequency : ReportScheduleFrequency) (first date : ℤ) : Prop :=
  match frequency with
  | .WEEKLY => date % 7 = moscowDay first % 7
  | .MONTHLY => dayOfMonth date = chosenDay first (monthOf date)
  | .DAILY | .CUSTOM_CRON => True

theorem nextMonth_day (t : ℤ) :
    let length := monthLength (moscowMonth t + 1)
    let date := monthFirst (moscowMonth t + 1) + min (dayOfMonth (moscowDay t)) length - 1
    monthOf date = moscowMonth t + 1 ∧ dayOfMonth date = min (dayOfMonth (moscowDay t)) length := by
  have hlength := monthLength_pos (moscowMonth t + 1)
  have hday := dayOfMonth_bounds (moscowDay t)
  exact month_day (by omega) (min_le_right _ _)

theorem moscowDay_lt_nextMonth (t : ℤ) :
    moscowDay t < monthFirst (moscowMonth t + 1) + min (dayOfMonth (moscowDay t)) (monthLength (moscowMonth t + 1)) -
      1 := by
  have hlength := monthLength_pos (moscowMonth t + 1)
  have hday := dayOfMonth_bounds (moscowDay t)
  have hnext := (monthFirst_monthOf (moscowDay t)).2
  unfold moscowMonth at *
  omega

/-- The due time that a run sets is after the run. -/
theorem lt_dueOn_nextDate : t < dueOn timeOfDay (nextDate frequency timeOfDay t) := by
  obtain ⟨hlow, hhigh⟩ := timeOfDay.clock_bounds
  unfold nextDate
  split_ifs with hclock
  · exact lt_of_not_ge fun hle => absurd ((dueOn_le_iff timeOfDay t).1 hle) (not_le.2 hclock)
  · have hafter : ∀ date, moscowDay t < date → t < dueOn timeOfDay date := by
      intro date hdate
      unfold dueOn dayStart moscowDay day at *
      omega
    cases frequency with
    | WEEKLY => exact hafter _ (Int.lt_add_of_pos_right _ (by decide))
    | MONTHLY => exact hafter _ (moscowDay_lt_nextMonth t)
    | DAILY | CUSTOM_CRON => exact hafter _ (Int.lt_add_of_pos_right _ (by decide))

/-- A run on a moment of the schedule sets a date of the schedule. -/
theorem onDate_nextDate (h : OnSchedule frequency timeOfDay.clock first t) :
    OnDate frequency first (nextDate frequency timeOfDay t) := by
  cases frequency with
  | WEEKLY =>
    have hweekday : moscowDay t % 7 = moscowDay first % 7 := h
    show nextDate .WEEKLY timeOfDay t % 7 = _
    unfold nextDate
    dsimp only
    split_ifs <;> omega
  | MONTHLY =>
    obtain ⟨hmonth, hday⟩ := nextMonth_day t
    unfold OnSchedule at h
    show dayOfMonth (nextDate .MONTHLY timeOfDay t) = chosenDay first (monthOf (nextDate .MONTHLY timeOfDay t))
    unfold nextDate
    dsimp only at h ⊢
    split_ifs at h ⊢
    · exact h
    · rw [hmonth, hday]
      exact h
  | DAILY | CUSTOM_CRON => trivial

/-- On its weekday a later run of a weekly schedule sets no earlier date. -/
theorem nextDate_weekly_mono (hle : t ≤ t') (hsame : nextDate .WEEKLY timeOfDay t % 7 =
    nextDate .WEEKLY timeOfDay t' % 7) : nextDate .WEEKLY timeOfDay t ≤ nextDate .WEEKLY timeOfDay t' := by
  unfold nextDate moscowDay moscowClock day at *
  dsimp only at *
  split_ifs at hsame ⊢ <;> omega

/-- Of two dates of a schedule one due time follows the other, if they are different and, in a weekly schedule, in
order. -/
theorem follows_of_onDate {earlier later : ℤ} (hearlier : OnDate frequency first earlier)
    (hlater : OnDate frequency first later) (hne : later ≠ earlier) (horder : frequency = .WEEKLY → earlier ≤ later) :
    Follows frequency first (dueOn timeOfDay later) (dueOn timeOfDay earlier) := by
  cases frequency with
  | WEEKLY =>
    have hweekday : later % 7 = earlier % 7 := Eq.trans hlater (Eq.symm hearlier)
    have hle := horder rfl
    refine ⟨by rw [moscowDay_dueOn, moscowDay_dueOn, hweekday], ?_⟩
    unfold dueOn dayStart day at *
    omega
  | MONTHLY =>
    have hlaterDay : dayOfMonth later = chosenDay first (monthOf later) := hlater
    have hearlierDay : dayOfMonth earlier = chosenDay first (monthOf earlier) := hearlier
    unfold Follows moscowMonth
    rw [moscowDay_dueOn, moscowDay_dueOn]
    refine ⟨fun hmonth => hne ?_, hlaterDay⟩
    rw [hmonth, ← hearlierDay] at hlaterDay
    unfold dayOfMonth at hlaterDay
    rw [hmonth] at hlaterDay
    omega
  | DAILY | CUSTOM_CRON =>
    show moscowDay (dueOn timeOfDay later) ≠ moscowDay (dueOn timeOfDay earlier)
    rw [moscowDay_dueOn, moscowDay_dueOn]
    exact hne

theorem dueOn_inj {a b : ℤ} : dueOn timeOfDay a = dueOn timeOfDay b ↔ a = b := by
  unfold dueOn dayStart day
  omega

theorem dueOn_lt_iff {a b : ℤ} : dueOn timeOfDay a < dueOn timeOfDay b ↔ a < b := by
  unfold dueOn dayStart day
  omega

end NextDate

/-! ## Runs -/

/-- The due times are those of dates of the schedule. The current one was set at an instant from which on no run for
it was done, and the scheduled runs that were done had been due by then. -/
structure Kept (frequency : ReportScheduleFrequency) (timeOfDay : TimeOfDay) (since first : ℤ)
    (history : ScheduleHistory) : Prop where
  frequency_eq : history.schedule.frequency = frequency
  timeOfDay_eq : history.schedule.timeOfDay = timeOfDay
  current : ∃ t, since ≤ t ∧ t ≤ history.clock ∧ (∀ due ∈ history.delivered, due ≤ t) ∧
    OnDate frequency first (nextDate frequency timeOfDay t) ∧
      history.schedule.nextRunAt = some (dueOn timeOfDay (nextDate frequency timeOfDay t)) ∧
        history.dues.head? = some (dueOn timeOfDay (nextDate frequency timeOfDay t))
  dates : ∀ due ∈ history.delivered, ∃ date, OnDate frequency first date ∧ due = dueOn timeOfDay date
  consecutive : history.dues.IsChain (Follows frequency first)
  once : history.delivered.Pairwise (Follows frequency first)

theorem Kept.cadence {frequency : ReportScheduleFrequency} {timeOfDay : TimeOfDay} {since first : ℤ}
    {history : ScheduleHistory} (h : Kept frequency timeOfDay since first history) : Cadence first history where
  consecutive := h.frequency_eq ▸ h.consecutive
  once := h.frequency_eq ▸ h.once

section Runs

variable {offset : ℤ → ℤ} {since first : ℤ} {frequency : ReportScheduleFrequency} {timeOfDay : TimeOfDay}
  {history : ScheduleHistory}

theorem kept_create (h : FixedFrom offset since) {now : ℤ} (hnow : since ≤ now) :
    Kept frequency timeOfDay since (nextScheduleRun offset frequency timeOfDay now)
      (createSchedule offset frequency timeOfDay now) where
  frequency_eq := rfl
  timeOfDay_eq := rfl
  current := by
    have hnext := nextScheduleRun_eq h hnow frequency timeOfDay
    refine ⟨now, hnow, le_rfl, nofun, ?_, congrArg some hnext, congrArg some hnext⟩
    rw [hnext]
    cases frequency with
    | WEEKLY => exact congrArg (· % 7) (moscowDay_dueOn timeOfDay _).symm
    | MONTHLY =>
      show dayOfMonth _ = chosenDay _ _
      rw [chosenDay, moscowDay_dueOn]
      exact (min_eq_left (dayOfMonth_bounds _).2).symm
    | DAILY | CUSTOM_CRON => trivial
  dates := nofun
  consecutive := List.isChain_singleton _
  once := List.Pairwise.nil

/-- Time passes. -/
theorem Kept.wait (h : Kept frequency timeOfDay since first history) {now : ℤ} (hnow : history.clock ≤ now) :
    Kept frequency timeOfDay since first { history with clock := now } where
  frequency_eq := h.frequency_eq
  timeOfDay_eq := h.timeOfDay_eq
  current := by
    obtain ⟨t, ht, hclock, hrest⟩ := h.current
    exact ⟨t, ht, hclock.trans hnow, hrest⟩
  dates := h.dates
  consecutive := h.consecutive
  once := h.once

/-- The new due time is the current one, or it follows it. -/
theorem Kept.dues (h : Kept frequency timeOfDay since first history) {now : ℤ} (hnow : history.clock ≤ now)
    (hdate : OnDate frequency first (nextDate frequency timeOfDay now)) :
    let next := dueOn timeOfDay (nextDate frequency timeOfDay now)
    let dues := if history.schedule.nextRunAt = some next then history.dues else next :: history.dues
    dues.head? = some next ∧ dues.IsChain (Follows frequency first) := by
  obtain ⟨t, -, hclock, -, hcurrent, hnext, hhead⟩ := h.current
  dsimp only
  rw [hnext]
  by_cases hsame : nextDate frequency timeOfDay t = nextDate frequency timeOfDay now
  · rw [if_pos (by rw [hsame]), ← hsame]
    exact ⟨hhead, h.consecutive⟩
  · rw [if_neg fun heq => hsame (dueOn_inj.1 (Option.some.inj heq))]
    refine ⟨rfl, List.isChain_cons.2 ⟨fun due hmem => ?_, h.consecutive⟩⟩
    obtain rfl := Option.some.inj (hhead.symm.trans hmem)
    refine follows_of_onDate hcurrent hdate (Ne.symm hsame) ?_
    rintro rfl
    exact nextDate_weekly_mono (hclock.trans hnow) (Eq.trans hcurrent (Eq.symm hdate))

/-- The current due time follows those that were delivered. -/
theorem Kept.delivered (h : Kept frequency timeOfDay since first history) {due : ℤ}
    (hdue : history.schedule.nextRunAt = some due) :
    (due :: history.delivered).Pairwise (Follows frequency first) ∧
      ∃ date, OnDate frequency first date ∧ due = dueOn timeOfDay date := by
  obtain ⟨t, -, -, hdone, hcurrent, hnext, -⟩ := h.current
  obtain rfl := Option.some.inj (hdue.symm.trans hnext)
  refine ⟨List.pairwise_cons.2 ⟨fun due hmem => ?_, h.once⟩, _, hcurrent, rfl⟩
  obtain ⟨date, hold, heq⟩ := h.dates due hmem
  have hlt : dueOn timeOfDay date < dueOn timeOfDay (nextDate frequency timeOfDay t) :=
    heq ▸ (hdone due hmem).trans_lt lt_dueOn_nextDate
  have hlt' := dueOn_lt_iff.1 hlt
  rw [heq]
  exact follows_of_onDate hold hcurrent hlt'.ne' fun _ => hlt'.le

/-- A run at a moment of the schedule keeps the cadence. -/
theorem Kept.deliver (hfixed : FixedFrom offset since) (h : Kept frequency timeOfDay since first history) {now : ℤ}
    (hnow : history.clock ≤ now) {manual : Bool}
    (hdue : manual = false → ∀ due, history.schedule.nextRunAt = some due → due ≤ now)
    (hon : OnSchedule frequency timeOfDay.clock first now) :
    Kept frequency timeOfDay since first (deliverSchedule offset history now manual) := by
  obtain ⟨t, ht, hclock, hdone, -, hcurrent, -⟩ := h.current
  have hsince : since ≤ now := ht.trans (hclock.trans hnow)
  have hnext : nextScheduleRun offset history.schedule.frequency history.schedule.timeOfDay now =
      dueOn timeOfDay (nextDate frequency timeOfDay now) := by
    rw [h.frequency_eq, h.timeOfDay_eq]
    exact nextScheduleRun_eq hfixed hsince frequency timeOfDay
  have hdate := onDate_nextDate hon
  obtain ⟨hhead, hchain⟩ := h.dues hnow hdate
  obtain ⟨honce, date, honDate, hdueDate⟩ := h.delivered hcurrent
  have hold : ∀ due ∈ history.delivered, due ≤ now := fun due hmem => (hdone due hmem).trans (hclock.trans hnow)
  unfold deliverSchedule
  dsimp only
  rw [hnext]
  cases manual with
  | true =>
    exact { frequency_eq := h.frequency_eq, timeOfDay_eq := h.timeOfDay_eq,
            current := ⟨now, hsince, le_rfl, hold, hdate, rfl, hhead⟩, dates := h.dates, consecutive := hchain,
            once := h.once }
  | false =>
    rw [if_neg Bool.false_ne_true, hcurrent, Option.toList_some, List.singleton_append]
    rw [hcurrent] at hhead hchain
    exact { frequency_eq := h.frequency_eq, timeOfDay_eq := h.timeOfDay_eq,
            current := ⟨now, hsince, le_rfl, List.forall_mem_cons.2 ⟨hdue rfl _ hcurrent, hold⟩, hdate, rfl, hhead⟩,
            dates := List.forall_mem_cons.2 ⟨⟨date, honDate, hdueDate⟩, h.dates⟩, consecutive := hchain,
            once := honce }

theorem Kept.step (hfixed : FixedFrom offset since) (h : Kept frequency timeOfDay since first history)
    {act : ScheduleAct} (hon : RunsOnSchedule first history act) {next : ScheduleHistory}
    (hstep : scheduleStep offset history act = some next) : Kept frequency timeOfDay since first next := by
  unfold scheduleStep at hstep
  unfold RunsOnSchedule at hon
  rw [h.frequency_eq, h.timeOfDay_eq] at hon
  by_cases hclock : act.now < history.clock
  · rw [if_pos hclock] at hstep
    exact nomatch hstep
  rw [if_neg hclock] at hstep
  by_cases hruns : runs history act = true
  · rw [if_pos hruns] at hstep
    obtain rfl := Option.some.inj hstep
    refine h.deliver hfixed (not_lt.1 hclock) ?_ (hon hruns)
    intro hmanual due hdue
    cases act with
    | tick now throws =>
      have htick := (Bool.and_eq_true_iff.1 (Bool.and_eq_true_iff.1 hruns).1).2
      rw [hdue] at htick
      exact of_decide_eq_true htick
    | manual => exact nomatch hmanual
  · rw [if_neg hruns] at hstep
    obtain rfl := Option.some.inj hstep
    exact h.wait (not_lt.1 hclock)

/-- **The cadence of a schedule.** In every history in which the schedule runs at moments of its cadence only, each
due time follows the one before and no two scheduled runs are for one period. -/
theorem report_schedule_cadence (hfixed : FixedFrom offset since) (frequency : ReportScheduleFrequency)
    (timeOfDay : TimeOfDay) {created : ℤ} (hcreated : since ≤ created) {history : ScheduleHistory}
    (h : ReachableVia (scheduleStep offset) (RunsOnSchedule (nextScheduleRun offset frequency timeOfDay created))
      (createSchedule offset frequency timeOfDay created) history) :
    Cadence (nextScheduleRun offset frequency timeOfDay created) history := by
  have hkept : Kept frequency timeOfDay since (nextScheduleRun offset frequency timeOfDay created) history :=
    h.invariant (kept_create hfixed hcreated) fun _ _ _ hkept hon hstep => hkept.step hfixed hon hstep
  exact hkept.cadence

end Runs

/-! ## Two weekly schedules -/

/-- Moscow has three hours. -/
def moscow : ℤ → ℤ := fun _ => 3 * hour

/-- Noon on Monday, 3 August 2026. -/
def mondayNoon : ℤ := 1_785_747_600_000

/-- A schedule of every Monday, one minute before midnight. -/
def lastMinute : ScheduleHistory := createSchedule moscow .WEEKLY ⟨23, 59⟩ mondayNoon

/-- It runs half a minute late. -/
theorem report_schedule_cadence_sample : ∃ history,
    scheduleStep moscow lastMinute (.tick (mondayNoon + 43_170_000) false) = some history ∧
      Cadence (nextScheduleRun moscow .WEEKLY ⟨23, 59⟩ mondayNoon) history := by
  have hstep : scheduleStep moscow lastMinute (.tick (mondayNoon + 43_170_000) false) =
      some (deliverSchedule moscow lastMinute (mondayNoon + 43_170_000) false) := by decide +kernel
  have hon : RunsOnSchedule (nextScheduleRun moscow .WEEKLY ⟨23, 59⟩ mondayNoon) lastMinute
      (.tick (mondayNoon + 43_170_000) false) := by
    intro _
    show moscowDay (mondayNoon + 43_170_000) % 7 =
      moscowDay (nextScheduleRun moscow .WEEKLY ⟨23, 59⟩ mondayNoon) % 7
    decide +kernel
  exact ⟨_, hstep, report_schedule_cadence fixedFrom_firstCentury .WEEKLY ⟨23, 59⟩ (by decide)
    (ReachableVia.single hon hstep)⟩

/-- The tick comes at one minute past midnight, and the next due time is on Tuesday. -/
theorem report_schedule_cadence_fails : ¬ ∀ history, Reachable (scheduleStep moscow) lastMinute history →
    Cadence (nextScheduleRun moscow .WEEKLY ⟨23, 59⟩ mondayNoon) history := by
  intro h
  have hstep : scheduleStep moscow lastMinute (.tick (mondayNoon + 43_260_000) false) =
      some (deliverSchedule moscow lastMinute (mondayNoon + 43_260_000) false) := by decide +kernel
  have hdues : (deliverSchedule moscow lastMinute (mondayNoon + 43_260_000) false).dues =
      [mondayNoon + 129_540_000, mondayNoon + 43_140_000] := by decide +kernel
  have hchain := (h _ (ReachableVia.single trivial hstep)).consecutive
  rw [hdues] at hchain
  have hfollows : moscowDay (mondayNoon + 129_540_000) % 7 = moscowDay (mondayNoon + 43_140_000) % 7 ∧ _ :=
    (List.isChain_cons_cons.1 hchain).1
  exact absurd hfollows.1 (by decide +kernel)

end AmoAnalytics.Platform.Schedules
