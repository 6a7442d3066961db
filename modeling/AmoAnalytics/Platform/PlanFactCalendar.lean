import AmoAnalytics.Common.BusinessTime
import AmoAnalytics.Lib.CivilCalendar
import AmoAnalytics.Lib.DateText
import AmoAnalytics.Lib.JoinedKey

/-!
# The calendar of the plan and its facts

The month that `planFact` reads from its input and the calendar of that month on the current day: its bounds in
Moscow time and three counts of working days, each from a loop over the days. Where Moscow has its fixed offset the
counts are those of the days from Monday to Friday.
-/

namespace AmoAnalytics.Platform.PlanFact

open Common CivilDate CountedTime DateText

/-! ## `platform.service.ts` -/

/-- What `planFactCalendar` gives. -/
structure Calendar where
  year : ℤ
  month : ℤ
  monthKey : String
  monthStart : ℤ
  monthEnd : ℤ
  todayStart : ℤ
  todayEnd : ℤ
  isCurrentMonth : Bool
  isTodayWorkday : Bool
  workdaysInMonth : ℕ
  workedDays : ℕ
  remainingWorkdaysIncludingToday : ℕ
  deriving DecidableEq

/-- `/^(\d{4})-(\d{2})$/` with its numbers. -/
def monthInputNumbers (input : String) : Option (ℕ × ℕ) := do
  let (year, cs) ← digits 4 input.toList
  let cs ← literal '-' cs
  let (month, cs) ← digits 2 cs
  if cs = [] then some (year, month) else none

/-- `${year}-${String(month).padStart(2, '0')}`. -/
def monthKeyOf (parts : MoscowParts) : String := Int.repr parts.year ++ "-" ++ padded 2 parts.month

section Functions

variable (offset : ℤ → ℤ)

def parsePlanFactMonth (now : ℤ) (input : Option String) : ℤ :=
  let current := moscowParts offset now
  let (year, month) : ℤ × ℤ :=
    match monthInputNumbers (input.getD "") with
    | some (year, month) => (year, month)
    | none => (current.year, current.month)
  moscowDate year (min (max month 1) 12) 1 0 0 0 0

/-- The loop of `countMoscowWorkdays`. -/
def countLoop (last : ℤ) : ℕ → ℤ → ℕ → Option ℕ
  | 0, _, _ => none
  | fuel + 1, cursor, count =>
    if cursor ≤ last then
      let parts := moscowParts offset cursor
      countLoop last fuel (moscowDate parts.year parts.month (parts.day + 1) 12 0 0 0)
        (if isMoscowBusinessDay parts then count + 1 else count)
    else some count

def countMoscowWorkdays (start finish : ℤ) (fuel : ℕ) : Option ℕ :=
  if finish < start then some 0
  else
    let startParts := moscowParts offset start
    let endParts := moscowParts offset finish
    countLoop offset (moscowDate endParts.year endParts.month endParts.day 12 0 0 0) fuel
      (moscowDate startParts.year startParts.month startParts.day 12 0 0 0) 0

def planFactCalendar (month now : ℤ) (fuel : ℕ) : Option Calendar := do
  let monthParts := moscowParts offset month
  let monthStart := moscowDate monthParts.year monthParts.month 1 0 0 0 0
  let monthEnd := moscowDate monthParts.year (monthParts.month + 1) 0 23 59 59 999
  let nowParts := moscowParts offset now
  let todayStart := moscowDate nowParts.year nowParts.month nowParts.day 0 0 0 0
  let todayEnd := moscowDate nowParts.year nowParts.month nowParts.day 23 59 59 999
  let isCurrentMonth := decide (monthKeyOf monthParts = monthKeyOf nowParts)
  let workedUntil :=
    if todayEnd < monthStart then monthStart - 1 else if todayEnd < monthEnd then todayEnd else monthEnd
  let workdaysInMonth ← countMoscowWorkdays offset monthStart monthEnd fuel
  let workedDays ←
    (if monthStart ≤ workedUntil then countMoscowWorkdays offset monthStart workedUntil fuel else some 0)
  let remaining ← (if isCurrentMonth then countMoscowWorkdays offset todayStart monthEnd fuel else some 0)
  return {
    year := monthParts.year
    month := monthParts.month
    monthKey := monthKeyOf monthParts
    monthStart, monthEnd, todayStart, todayEnd, isCurrentMonth
    isTodayWorkday := isMoscowBusinessDay nowParts
    workdaysInMonth, workedDays
    remainingWorkdaysIncludingToday := remaining }

end Functions

/-! ## Days and months as numbers -/

/-- The first instant of a day in Moscow. -/
def dayStart (date : ℤ) : ℤ := date * day - 3 * hour

/-- The month of an instant in Moscow. -/
def moscowMonth (t : ℤ) : ℤ := monthOf (moscowDay t)

theorem moscowDay_eq_iff {t date : ℤ} : moscowDay t = date ↔ dayStart date ≤ t ∧ t < dayStart (date + 1) := by
  unfold moscowDay dayStart day hour
  omega

theorem dayStart_lt_iff {a b : ℤ} : dayStart a < dayStart b ↔ a < b := by
  unfold dayStart day hour
  omega

theorem dayStart_le_iff {a b : ℤ} : dayStart a ≤ dayStart b ↔ a ≤ b := by
  unfold dayStart day hour
  omega

/-- The year that `Date.UTC` takes for a number. -/
def utcYearOf (year : ℤ) : ℤ := if 0 ≤ year ∧ year ≤ 99 then 1_900 + year else year

/-- `Date.UTC` at a day counted from the first of a month. -/
theorem utc_month (year month dayOfMonth time : ℤ) :
    utc year month dayOfMonth time = (monthFirst (12 * utcYearOf year + month) + dayOfMonth - 1) * day + time := by
  have hyear : (12 * utcYearOf year + month) / 12 = utcYearOf year + month / 12 := by omega
  have hmonth : (12 * utcYearOf year + month) % 12 = month % 12 := by omega
  unfold utc monthFirst
  rw [hyear, hmonth]
  rfl

/-- A key has the year and the month of its parts. -/
theorem monthKeyOf_inj {parts parts' : MoscowParts} (h : 1 ≤ parts.month ∧ parts.month ≤ 12)
    (h' : 1 ≤ parts'.month ∧ parts'.month ≤ 12) :
    monthKeyOf parts = monthKeyOf parts' ↔ parts.year = parts'.year ∧ parts.month = parts'.month := by
  constructor
  · intro heq
    have hlist : (Int.repr parts.year).toList ++ '-' :: (padded 2 parts.month).toList =
        (Int.repr parts'.year).toList ++ '-' :: (padded 2 parts'.month).toList := by
      simpa [monthKeyOf] using congrArg String.toList heq
    obtain ⟨-, hdigits, hvalue⟩ := padded_digits (w := 2) (n := parts.month) (by decide) (by omega)
    obtain ⟨-, hdigits', hvalue'⟩ := padded_digits (w := 2) (n := parts'.month) (by decide) (by omega)
    obtain ⟨hyear, hnumber⟩ := JoinedKey.append_cons_inj_right (fun hmem => absurd (hdigits _ hmem) (by decide))
      (fun hmem => absurd (hdigits' _ hmem) (by decide)) hlist
    rw [hnumber, hvalue'] at hvalue
    exact ⟨Int.repr_injective (String.ext hyear), by omega⟩
  · rintro ⟨hyear, hmonth⟩
    rw [monthKeyOf, monthKeyOf, hyear, hmonth]

section Parts

variable {offset : ℤ → ℤ} {since t : ℤ}

/-- The month of the parts of an instant, in the range of a month of a year. -/
theorem moscowParts_month (h : FixedFrom offset since) (ht : since ≤ t) :
    12 * (moscowParts offset t).year + (moscowParts offset t).month - 1 = moscowMonth t ∧
      (1 ≤ (moscowParts offset t).month ∧ (moscowParts offset t).month ≤ 12) ∧ 100 ≤ (moscowParts offset t).year := by
  have hmonth := civilFromDays_month ((t + 3 * hour) / day)
  have hyear := utcYear_of_firstCentury_le (century_of_fixed h ht)
  unfold moscowParts moscowMonth moscowDay monthOf
  dsimp only
  rw [local_of_fixed h ht]
  unfold utcYear utcMonth at *
  omega

/-- A day counted from the first of the month of an instant. -/
theorem moscowDate_month (h : FixedFrom offset since) (ht : since ≤ t)
    (months dayOfMonth hours minute second ms : ℤ) :
    moscowDate (moscowParts offset t).year ((moscowParts offset t).month + months) dayOfMonth hours minute second ms =
      dayStart (monthFirst (moscowMonth t + months) + dayOfMonth - 1) +
        (hours * hour + minute * 60_000 + second * 1_000 + ms) := by
  obtain ⟨hmonth, -, hyear⟩ := moscowParts_month h ht
  have hnumber : 12 * utcYearOf (moscowParts offset t).year + ((moscowParts offset t).month + months - 1) =
      moscowMonth t + months := by
    rw [← hmonth, utcYearOf, if_neg (by omega)]
    ring
  rw [moscowDate, utc_month, hnumber, dayStart]
  unfold hour
  omega

/-- An instant of the day of an instant, by its clock. -/
theorem moscowDate_day (h : FixedFrom offset since) (ht : since ≤ t) (hours minute second ms : ℤ) :
    moscowDate (moscowParts offset t).year (moscowParts offset t).month (moscowParts offset t).day hours minute second
      ms = dayStart (moscowDay t) + (hours * hour + minute * 60_000 + second * 1_000 + ms) := by
  have hdays := utc_days (century_of_fixed h ht) 0 ((hours - 3) * hour + minute * 60_000 + second * 1_000 + ms)
  rw [add_zero, add_zero] at hdays
  unfold moscowDate moscowParts moscowDay dayStart
  dsimp only
  rw [local_of_fixed h ht, add_sub_cancel_right, hdays]
  unfold hour
  omega

/-- A month is known by its key. -/
theorem monthKeyOf_eq_iff (h : FixedFrom offset since) {t' : ℤ} (ht : since ≤ t) (ht' : since ≤ t') :
    monthKeyOf (moscowParts offset t) = monthKeyOf (moscowParts offset t') ↔ moscowMonth t = moscowMonth t' := by
  obtain ⟨hmonth, hrange, -⟩ := moscowParts_month h ht
  obtain ⟨hmonth', hrange', -⟩ := moscowParts_month h ht'
  rw [monthKeyOf_inj hrange hrange']
  omega

end Parts

/-- The bounds of a calendar are in order, whatever the zone. -/
theorem planFactCalendar_order {offset : ℤ → ℤ} {month now : ℤ} {fuel : ℕ} {calendar : Calendar}
    (h : planFactCalendar offset month now fuel = some calendar) :
    calendar.todayStart ≤ calendar.todayEnd ∧ calendar.monthStart ≤ calendar.monthEnd ∧
      (calendar.isCurrentMonth = true → calendar.monthStart ≤ calendar.todayStart) := by
  simp only [planFactCalendar, Option.bind_eq_bind, Option.bind_eq_some_iff] at h
  obtain ⟨workdaysInMonth, -, workedDays, -, remaining, -, heq⟩ := h
  cases heq
  have hmonth := monthFirst_lt_succ
    (12 * utcYearOf (moscowParts offset month).year + ((moscowParts offset month).month - 1))
  have hnext : 12 * utcYearOf (moscowParts offset month).year + ((moscowParts offset month).month - 1) + 1 =
      12 * utcYearOf (moscowParts offset month).year + (moscowParts offset month).month := by ring
  have hday : 1 ≤ (moscowParts offset now).day := (utcDate_bounds _).1
  rw [hnext] at hmonth
  refine ⟨?_, ?_, fun hcurrent => ?_⟩
  · dsimp only
    rw [moscowDate, moscowDate, utc_month, utc_month]
    unfold hour
    omega
  · dsimp only
    rw [moscowDate, moscowDate, utc_month, utc_month, add_sub_cancel_right (moscowParts offset month).month]
    unfold day hour
    omega
  · obtain ⟨hyear, hnumber⟩ := (monthKeyOf_inj (utcMonth_bounds _) (utcMonth_bounds _)).1 (of_decide_eq_true hcurrent)
    dsimp only
    rw [moscowDate, moscowDate, utc_month, utc_month, hyear, hnumber]
    unfold day
    omega

/-! ## Counted working days -/

section Counts

variable {offset : ℤ → ℤ} {since : ℤ}

/-- The working days of a span of days. -/
noncomputable def workdays (first next : ℤ) : ℕ := ((Finset.Ico first next).filter MondayToFriday).card

theorem workdays_add {a b c : ℤ} (hab : a ≤ b) (hbc : b ≤ c) : workdays a c = workdays a b + workdays b c := by
  have h := spent_add MondayToFriday hab hbc
  unfold spent at h
  exact_mod_cast h

theorem workdays_of_le {a b : ℤ} (h : b ≤ a) : workdays a b = 0 := by
  rw [workdays, Finset.Ico_eq_empty h.not_gt]
  rfl

theorem workdays_mono {a b c : ℤ} (h : b ≤ c) : workdays a b ≤ workdays a c :=
  Finset.card_le_card (Finset.filter_subset_filter _ (Finset.Ico_subset_Ico_right h))

theorem workdays_succ (a : ℤ) : workdays a (a + 1) = if MondayToFriday a then 1 else 0 := by
  have hone : Finset.Ico a (a + 1) = {a} := by
    ext x
    rw [Finset.mem_Ico, Finset.mem_singleton]
    omega
  rw [workdays, hone, Finset.filter_singleton]
  split_ifs <;> rfl

/-- A pass of the loop counts its day and goes to the next noon. -/
theorem countLoop_spec (h : FixedFrom offset since) (last : ℤ) {fuel : ℕ} {date : ℤ} (count : ℕ)
    (hdate : since ≤ dayStart date) (hfuel : (last + 1 - date).toNat < fuel) :
    countLoop offset (dayStart last + 12 * hour) fuel (dayStart date + 12 * hour) count =
      some (count + workdays date (last + 1)) := by
  induction fuel generalizing date count with
  | zero => exact absurd hfuel (Nat.not_lt_zero _)
  | succ fuel ih =>
    have hnoon : since ≤ dayStart date + 12 * hour := by
      unfold hour
      omega
    have hday : moscowDay (dayStart date + 12 * hour) = date :=
      moscowDay_eq_iff.2 (by unfold dayStart day hour; omega)
    rw [countLoop]
    by_cases hle : date ≤ last
    · have hnext : moscowDate (moscowParts offset (dayStart date + 12 * hour)).year
          (moscowParts offset (dayStart date + 12 * hour)).month
          ((moscowParts offset (dayStart date + 12 * hour)).day + 1) 12 0 0 0 = dayStart (date + 1) + 12 * hour := by
        rw [moscowDate_parts h hnoon 1 12, hday]
        unfold dayStart hour
        omega
      have hbusiness := isMoscowBusinessDay_iff h hnoon
      rw [hday] at hbusiness
      have hlater : since ≤ dayStart (date + 1) := hdate.trans (dayStart_le_iff.2 (by omega))
      dsimp only
      rw [if_pos (by have := dayStart_le_iff.2 hle; omega), hnext, ih _ hlater (by omega),
        workdays_add (show date ≤ date + 1 by omega) (show date + 1 ≤ last + 1 by omega), workdays_succ]
      by_cases hworkday : MondayToFriday date
      · rw [if_pos (hbusiness.2 hworkday), if_pos hworkday, add_assoc]
      · rw [if_neg (fun hb => hworkday (hbusiness.1 hb)), if_neg hworkday, zero_add]
    · rw [if_neg (by have := dayStart_lt_iff.2 (not_le.1 hle); omega), workdays_of_le (by omega), add_zero]

/-- The loop of the count stops with the working days from the day of the start to the day of the end. -/
theorem countMoscowWorkdays_yields (h : FixedFrom offset since) {first last start finish : ℤ}
    (hfirst : moscowDay start = first) (hlast : moscowDay finish = last) (hstart : since ≤ dayStart first)
    (hle : start ≤ finish) :
    Yields (countMoscowWorkdays offset start finish) (workdays first (last + 1)) := by
  have hafter : since ≤ start := hstart.trans (moscowDay_eq_iff.1 hfirst).1
  refine ⟨(last + 1 - first).toNat + 1, fun fuel hfuel => ?_⟩
  have hnoon : ∀ t, since ≤ t → moscowDate (moscowParts offset t).year (moscowParts offset t).month
      (moscowParts offset t).day 12 0 0 0 = dayStart (moscowDay t) + 12 * hour := by
    intro t ht
    rw [moscowDate_day h ht]
    omega
  unfold countMoscowWorkdays
  dsimp only
  rw [if_neg hle.not_gt, hnoon start hafter, hnoon finish (hafter.trans hle), hfirst, hlast,
    countLoop_spec h last 0 hstart (by omega), zero_add]

end Counts

/-! ## The calendar of a month -/

/-- The calendar of the month `m` on the day `d`. -/
structure CalendarOf (m d : ℤ) (calendar : Calendar) : Prop where
  monthStart : calendar.monthStart = dayStart (monthFirst m)
  monthEnd : calendar.monthEnd = dayStart (monthFirst (m + 1)) - 1
  todayStart : calendar.todayStart = dayStart d
  todayEnd : calendar.todayEnd = dayStart (d + 1) - 1
  isCurrentMonth : calendar.isCurrentMonth = true ↔ monthOf d = m
  isTodayWorkday : calendar.isTodayWorkday = true ↔ MondayToFriday d
  workdaysInMonth : calendar.workdaysInMonth = workdays (monthFirst m) (monthFirst (m + 1))
  workedDays : calendar.workedDays = workdays (monthFirst m) (min (d + 1) (monthFirst (m + 1)))
  remaining : calendar.remainingWorkdaysIncludingToday =
    if monthOf d = m then workdays d (monthFirst (m + 1)) else 0

section Month

variable {offset : ℤ → ℤ} {since month now : ℤ}

/-- The worked days are counted up to the end of the current day, or of the month if it is over. -/
theorem workedDays_yields (h : FixedFrom offset since) {m d : ℤ} (hm : since ≤ dayStart (monthFirst m))
    {workedUntil : ℤ} (huntil : workedUntil =
      if dayStart (d + 1) - 1 < dayStart (monthFirst m) then dayStart (monthFirst m) - 1
      else if dayStart (d + 1) - 1 < dayStart (monthFirst (m + 1)) - 1 then dayStart (d + 1) - 1
        else dayStart (monthFirst (m + 1)) - 1) :
    Yields (fun fuel => if dayStart (monthFirst m) ≤ workedUntil then
        countMoscowWorkdays offset (dayStart (monthFirst m)) workedUntil fuel else some 0)
      (workdays (monthFirst m) (min (d + 1) (monthFirst (m + 1)))) := by
  have hlt := monthFirst_lt_succ m
  have hfirst : moscowDay (dayStart (monthFirst m)) = monthFirst m :=
    moscowDay_eq_iff.2 ⟨le_rfl, dayStart_lt_iff.2 (by omega)⟩
  have hlast : ∀ date, moscowDay (dayStart date - 1) = date - 1 := fun date =>
    moscowDay_eq_iff.2 (by unfold dayStart day; omega)
  by_cases hbefore : d + 1 ≤ monthFirst m
  · have hstart := dayStart_le_iff.2 hbefore
    rw [if_pos (by omega)] at huntil
    refine ⟨0, fun fuel _ => ?_⟩
    dsimp only
    rw [if_neg (by omega), min_eq_left (by omega), workdays_of_le hbefore]
  · have hstart := dayStart_le_iff.2 (show monthFirst m + 1 ≤ d + 1 by omega)
    have hnext : dayStart (monthFirst m) < dayStart (monthFirst m + 1) := dayStart_lt_iff.2 (by omega)
    rw [if_neg (by omega)] at huntil
    rcases le_or_gt (monthFirst (m + 1)) (d + 1) with hover | hover
    · have hend := dayStart_le_iff.2 hover
      have hmonth := dayStart_lt_iff.2 hlt
      rw [if_neg (by omega)] at huntil
      obtain ⟨n, hn⟩ := countMoscowWorkdays_yields h hfirst (huntil ▸ hlast (monthFirst (m + 1))) hm (by omega)
      refine ⟨n, fun fuel hfuel => ?_⟩
      dsimp only
      rw [if_pos (by omega), hn fuel hfuel, min_eq_right hover, sub_add_cancel]
    · have hend := dayStart_lt_iff.2 hover
      rw [if_pos (by omega)] at huntil
      obtain ⟨n, hn⟩ := countMoscowWorkdays_yields h hfirst (huntil ▸ hlast (d + 1)) hm (by omega)
      refine ⟨n, fun fuel hfuel => ?_⟩
      dsimp only
      rw [if_pos (by omega), hn fuel hfuel, min_eq_left hover.le, sub_add_cancel]

/-- The loops of the calendar stop, with the calendar of the month on the current day. -/
theorem planFactCalendar_yields (h : FixedFrom offset since)
    (hmonth : since ≤ dayStart (monthFirst (moscowMonth month))) (hnow : since ≤ now) :
    ∃ calendar, Yields (planFactCalendar offset month now) calendar ∧
      CalendarOf (moscowMonth month) (moscowDay now) calendar := by
  have hin := monthFirst_monthOf (moscowDay month)
  have hstarts : dayStart (monthFirst (moscowMonth month)) ≤ month :=
    (dayStart_le_iff.2 hin.1).trans (moscowDay_eq_iff.1 rfl).1
  have hafter : since ≤ month := hmonth.trans hstarts
  have hlt := monthFirst_lt_succ (moscowMonth month)
  have hlast : moscowDay (dayStart (monthFirst (moscowMonth month + 1)) - 1) =
      monthFirst (moscowMonth month + 1) - 1 := moscowDay_eq_iff.2 (by unfold dayStart day; omega)
  have hfirst : moscowDay (dayStart (monthFirst (moscowMonth month))) = monthFirst (moscowMonth month) :=
    moscowDay_eq_iff.2 ⟨le_rfl, dayStart_lt_iff.2 (by omega)⟩
  have hstart : moscowDate (moscowParts offset month).year (moscowParts offset month).month 1 0 0 0 0 =
      dayStart (monthFirst (moscowMonth month)) := by
    have heq := moscowDate_month h hafter 0 1 0 0 0 0
    rw [add_zero, add_zero] at heq
    rw [heq]
    ring_nf
  have hend : moscowDate (moscowParts offset month).year ((moscowParts offset month).month + 1) 0 23 59 59 999 =
      dayStart (monthFirst (moscowMonth month + 1)) - 1 := by
    rw [moscowDate_month h hafter 1 0 23 59 59 999]
    unfold dayStart day hour
    omega
  have htodayStart := moscowDate_day h hnow 0 0 0 0
  have htodayEnd : moscowDate (moscowParts offset now).year (moscowParts offset now).month
    (moscowParts offset now).day
      23 59 59 999 = dayStart (moscowDay now + 1) - 1 := by
    rw [moscowDate_day h hnow]
    unfold dayStart day hour
    omega
  have hwhole : Yields (countMoscowWorkdays offset (dayStart (monthFirst (moscowMonth month)))
      (dayStart (monthFirst (moscowMonth month + 1)) - 1))
      (workdays (monthFirst (moscowMonth month)) (monthFirst (moscowMonth month + 1))) := by
    have hyields := countMoscowWorkdays_yields h hfirst hlast hmonth (by have := dayStart_lt_iff.2 hlt; omega)
    rwa [sub_add_cancel] at hyields
  have hcurrent := monthKeyOf_eq_iff h hafter hnow
  have hrest : Yields (fun fuel => if decide (monthKeyOf (moscowParts offset month) =
        monthKeyOf (moscowParts offset now)) = true then
          countMoscowWorkdays offset (dayStart (moscowDay now)) (dayStart (monthFirst
            (moscowMonth month + 1)) - 1) fuel
        else some 0)
      (if monthOf (moscowDay now) = moscowMonth month then
        workdays (moscowDay now) (monthFirst (moscowMonth month + 1)) else 0) := by
    by_cases hsame : monthOf (moscowDay now) = moscowMonth month
    · obtain ⟨hle, hnext⟩ := monthOf_eq_iff.1 hsame
      have hyields := countMoscowWorkdays_yields h
        (moscowDay_eq_iff.2 ⟨le_rfl, dayStart_lt_iff.2 (by omega)⟩ : moscowDay (dayStart (moscowDay now)) = _) hlast
        (hmonth.trans (dayStart_le_iff.2 hle)) (by have := dayStart_lt_iff.2 hnext; omega)
      rw [sub_add_cancel] at hyields
      simpa only [if_pos hsame, if_pos (decide_eq_true (hcurrent.2 hsame.symm))] using hyields
    · have hother : ¬ decide (monthKeyOf (moscowParts offset month) = monthKeyOf (moscowParts offset now)) = true :=
        by
        rw [decide_eq_true_eq, hcurrent]
        exact fun heq => hsame heq.symm
      simp only [if_neg hsame, if_neg hother]
      exact ⟨0, fun _ _ => rfl⟩
  obtain ⟨n₁, h₁⟩ := hwhole
  obtain ⟨n₂, h₂⟩ := workedDays_yields h hmonth (d := moscowDay now) rfl
  obtain ⟨n₃, h₃⟩ := hrest
  refine ⟨⟨(moscowParts offset month).year, (moscowParts offset month).month, monthKeyOf (moscowParts offset month),
    _, _, _, _, decide (monthKeyOf (moscowParts offset month) = monthKeyOf (moscowParts offset now)),
    isMoscowBusinessDay (moscowParts offset now), _, _, _⟩, ⟨max n₁ (max n₂ n₃), fun fuel hfuel => ?_⟩, rfl, rfl,
    rfl, rfl, ?_, isMoscowBusinessDay_iff h hnow, rfl, rfl, rfl⟩
  · have hn₁ := h₁ fuel (by omega)
    have hn₂ := h₂ fuel (by omega)
    have hn₃ := h₃ fuel (by omega)
    dsimp only at hn₂ hn₃
    simp only [planFactCalendar, hstart, hend, htodayStart, htodayEnd, zero_mul, add_zero, hn₁, hn₂, hn₃,
      Option.bind_eq_bind, Option.bind_some]
    rfl
  · rw [decide_eq_true_eq, hcurrent]
    exact eq_comm

end Month

end AmoAnalytics.Platform.PlanFact
