import AmoAnalytics.Lib.CivilCalendar
import AmoAnalytics.Lib.DateText
import AmoAnalytics.Workspaces.Shipments

/-!
# Performance periods

`performancePeriod` reads the month and the day of a query as texts and gives the month, one of its days or one of its
weeks, cut at the ends of the month, in Moscow time. Read as day numbers, the days and the weeks of a month follow each
other without a gap from its first day to its last.
-/

namespace AmoAnalytics.Workspaces

open CivilDate DateText Shipments

/-! ## `performance-period.ts` -/

inductive PeriodKind
  | month
  | week
  | day
deriving DecidableEq

def PeriodKind.text : PeriodKind → String
  | .month => "MONTH"
  | .week => "WEEK"
  | .day => "DAY"

def periodKind (text : String) : Option PeriodKind :=
  [PeriodKind.month, .week, .day].find? fun kind => kind.text = text

structure PeriodQuery where
  period : Option String
  month : Option String
  day : Option String

structure PerformancePeriod where
  period : PeriodKind
  month : String
  day : String
  key : String
  start : ℤ
  finish : ℤ
  monthStart : ℤ
  monthEnd : ℤ

/-- `value || default`. -/
def orElse (value : Option String) (default : String) : String := (value.filter (· ≠ "")).getD default

def slice (text : String) (length : ℕ) : String := String.ofList (text.toList.take length)

/-- `/^20\d\d-(0[1-9]|1[0-2])$/` with its numbers. -/
def monthNumbers (month : String) : Option (ℕ × ℕ) := do
  let (year, cs) ← digits 4 month.toList
  let cs ← literal '-' cs
  let (number, cs) ← digits 2 cs
  if cs = [] ∧ 2000 ≤ year ∧ year ≤ 2099 ∧ 1 ≤ number ∧ number ≤ 12 then some (year, number) else none

/-- `/^20\d\d-\d\d-\d\d$/`. -/
def isDayText (day : String) : Bool :=
  match dateOnly day.toList with
  | some (year, _, _) => 2000 ≤ year && year ≤ 2099
  | none => false

/-- The zone of Moscow. -/
def moscow : ℤ := 10_800_000

/-- `new Date(date + 10800000).toISOString().slice(0, 10)`. -/
def moscowDayText (date : ℤ) : String := slice (isoString (date + moscow)) 10

/-- The day of the week counted from Monday, one to seven. -/
def weekdayOf (date : ℤ) : ℤ := if utcDay (date + moscow) = 0 then 7 else utcDay (date + moscow)

/-- The start and the end of the period. -/
def bounds (kind : PeriodKind) (anchor monthStart monthEnd : ℤ) : ℤ × ℤ :=
  match kind with
  | .month => (monthStart, monthEnd)
  | .day => (anchor, anchor + day)
  | .week =>
    (max monthStart (anchor - (weekdayOf anchor - 1) * day), min monthEnd (anchor + (8 - weekdayOf anchor) * day))

def chosenDay (today month : String) (query : PeriodQuery) : String :=
  orElse query.day (if month = slice today 7 then today else month ++ "-01")

def performancePeriod (other : String → Option ℤ) (today : String) (query : PeriodQuery) :
    Except String PerformancePeriod :=
  let period := orElse query.period "MONTH"
  let month := orElse query.month (slice today 7)
  match monthNumbers month, periodKind period with
  | some (year, number), some kind =>
    let day := chosenDay today month query
    if isDayText day ∧ slice day 7 = month then
      match newDate other (day ++ "T00:00:00+03:00") with
      | none => .error "Некорректная дата"
      | some anchor =>
        if moscowDayText anchor = day then
          match newDate other (month ++ "-01T00:00:00+03:00") with
          | none => .error "Invalid time value"
          | some monthStart =>
            let monthEnd := utc year number 1 0 - moscow
            let (start, finish) := bounds kind anchor monthStart monthEnd
            .ok { period := kind, month, day, key := moscowDayText start, start, finish, monthStart, monthEnd }
        else .error "Некорректная дата"
    else .error "Дата должна относиться к выбранному месяцу"
  | _, _ => .error "Выберите корректный период"

/-! ## Days as numbers -/

/-- The first instant of a day in Moscow. -/
def dayStart (d : ℤ) : ℤ := d * day - moscow

/-- The day in Moscow of an instant. -/
def dayOf (t : ℤ) : ℤ := (t + moscow) / day

/-- The text of a day. -/
def dayText (d : ℤ) : String := moscowDayText (dayStart d)

/-- The week of a day, counted from Mondays. -/
def weekOf (d : ℤ) : ℤ := (d + 3) / 7

/-- The first day of the period of a day, and the day after the last. -/
def daysOf (kind : PeriodKind) (n d : ℤ) : ℤ × ℤ :=
  match kind with
  | .month => (monthFirst n, monthFirst (n + 1))
  | .day => (d, d + 1)
  | .week => (max (monthFirst n) (7 * weekOf d - 3), min (monthFirst (n + 1)) (7 * weekOf d + 4))

/-- In days, the bounds are those of the period of the day. -/
theorem bounds_eq (kind : PeriodKind) (n d : ℤ) :
    bounds kind (dayStart d) (dayStart (monthFirst n)) (dayStart (monthFirst (n + 1))) =
      (dayStart (daysOf kind n d).1, dayStart (daysOf kind n d).2) := by
  cases kind with
  | month => rfl
  | day =>
    unfold bounds daysOf dayStart
    dsimp only
    rw [Prod.mk.injEq]
    exact ⟨rfl, by ring⟩
  | week =>
    have hweekday : weekdayOf (dayStart d) = d - 7 * weekOf d + 4 := by
      unfold weekdayOf utcDay dayStart weekOf moscow day
      split_ifs <;> omega
    unfold bounds daysOf
    dsimp only
    rw [hweekday]
    unfold dayStart moscow day
    rw [Prod.mk.injEq]
    constructor <;> omega

/-! ## Texts of days and months -/

theorem dayStart_moscow (d : ℤ) : dayStart d + moscow = d * day := by
  unfold dayStart
  omega

theorem utc_parts_of_day (d : ℤ) : utcYear (d * day) = (civilFromDays d).1 ∧
    utcMonth (d * day) + 1 = (civilFromDays d).2.1 ∧ utcDate (d * day) = (civilFromDays d).2.2 := by
  have hday : d * day / day = d := Int.mul_ediv_cancel d (by decide)
  unfold utcYear utcMonth utcDate
  rw [hday]
  exact ⟨rfl, sub_add_cancel _ _, rfl⟩

/-- The year and the month of a day of a month. -/
theorem civil_of_monthOf {d year number : ℤ} (h : monthOf d = 12 * year + number - 1) (h₁ : 1 ≤ number)
    (h₂ : number ≤ 12) : (civilFromDays d).1 = year ∧ (civilFromDays d).2.1 = number := by
  have := civilFromDays_month d
  unfold monthOf at h
  omega

theorem toList_dayText {d : ℤ} (h : 0 ≤ (civilFromDays d).1 ∧ (civilFromDays d).1 ≤ 9999) :
    (dayText d).toList = dateText (d * day) := by
  have hyear := (utc_parts_of_day d).1
  rw [dayText, moscowDayText, slice, String.toList_ofList, dayStart_moscow, take_isoString (by rwa [hyear])]

theorem dateOnly_dayText {d : ℤ} (h : 0 ≤ (civilFromDays d).1 ∧ (civilFromDays d).1 ≤ 9999) :
    ∃ y m dd : ℕ, (y : ℤ) = (civilFromDays d).1 ∧ (m : ℤ) = (civilFromDays d).2.1 ∧
      (dd : ℤ) = (civilFromDays d).2.2 ∧ dateOnly (dayText d).toList = some (y, m, dd) := by
  obtain ⟨hyear, hmonth, hdate⟩ := utc_parts_of_day d
  obtain ⟨y, m, dd, hy, hm, hd, hread⟩ := @dateOnly_dateText (d * day) (by rwa [hyear])
  rw [toList_dayText h]
  exact ⟨y, m, dd, hy.trans hyear, hm.trans hmonth, hd.trans hdate, hread⟩

/-- A day is known by its text. -/
theorem dayText_inj {d d' : ℤ} (h : 0 ≤ (civilFromDays d).1 ∧ (civilFromDays d).1 ≤ 9999)
    (h' : 0 ≤ (civilFromDays d').1 ∧ (civilFromDays d').1 ≤ 9999) (heq : dayText d = dayText d') : d = d' := by
  obtain ⟨y, m, dd, hy, hm, hd, hread⟩ := dateOnly_dayText h
  obtain ⟨y', m', dd', hy', hm', hd', hread'⟩ := dateOnly_dayText h'
  rw [heq, hread'] at hread
  cases hread
  rw [← daysFromCivil_civilFromDays d, ← daysFromCivil_civilFromDays d', ← hy, ← hm, ← hd, hy', hm', hd']

/-- The first seven characters of a day's text write its month. -/
theorem monthNumbers_dayText {d : ℤ} {year number : ℕ} (h : monthOf d = 12 * year + number - 1) (h₁ : 2000 ≤ year)
    (h₂ : year ≤ 2099) (h₃ : 1 ≤ number) (h₄ : number ≤ 12) :
    monthNumbers (slice (dayText d) 7) = some (year, number) := by
  obtain ⟨hyear, hmonth⟩ := civil_of_monthOf h (by omega) (by omega)
  have hrange : 0 ≤ (civilFromDays d).1 ∧ (civilFromDays d).1 ≤ 9999 := by omega
  obtain ⟨hyear', hmonth', -⟩ := utc_parts_of_day d
  obtain ⟨hlen, hlen', -⟩ := @dateParts_length (d * day) (by rwa [hyear'])
  have htake : (slice (dayText d) 7).toList =
      (padded 4 (utcYear (d * day))).toList ++ '-' :: (padded 2 (utcMonth (d * day) + 1)).toList := by
    rw [slice, String.toList_ofList, toList_dayText hrange, dateText]
    have hsplit : (padded 4 (utcYear (d * day))).toList ++ '-' :: ((padded 2 (utcMonth (d * day) + 1)).toList ++
        '-' :: (padded 2 (utcDate (d * day))).toList) = ((padded 4 (utcYear (d * day))).toList ++
          '-' :: (padded 2 (utcMonth (d * day) + 1)).toList) ++ '-' :: (padded 2 (utcDate (d * day))).toList := by
      rw [List.append_assoc, List.cons_append]
    rw [hsplit, List.take_left' (by rw [List.length_append, List.length_cons, hlen, hlen'])]
  obtain ⟨y, hy, hreadYear⟩ := digits_padded_nat (w := 4) (n := utcYear (d * day)) (by decide) (by omega) (by omega)
  obtain ⟨m, hm, hreadMonth⟩ := digits_padded_nat (w := 2) (n := utcMonth (d * day) + 1) (by decide) (by omega)
    (by omega)
  have hlast := hreadMonth []
  rw [List.append_nil] at hlast
  obtain ⟨rfl, rfl⟩ : y = year ∧ m = number := by omega
  simp only [monthNumbers, htake, hreadYear, literal_cons, hlast, Option.bind_eq_bind, Option.bind_some]
  exact if_pos ⟨trivial, h₁, h₂, h₃, h₄⟩

theorem monthNumbers_eq_some {month : String} {year number : ℕ} (h : monthNumbers month = some (year, number)) :
    (2000 ≤ year ∧ year ≤ 2099 ∧ 1 ≤ number ∧ number ≤ 12) ∧
      ∃ cs₁ cs₂, digits 4 month.toList = some (year, cs₁) ∧ literal '-' cs₁ = some cs₂ ∧
        digits 2 cs₂ = some (number, []) := by
  unfold monthNumbers at h
  simp only [Option.bind_eq_bind, Option.bind_eq_some_iff] at h
  obtain ⟨⟨y, cs₁⟩, hyear, cs₂, hdash, ⟨m, cs₃⟩, hmonth, hend⟩ := h
  split_ifs at hend with hcond
  cases hend
  obtain ⟨rfl, hrange⟩ : cs₃ = [] ∧ _ := hcond
  exact ⟨hrange, cs₁, cs₂, hyear, hdash, hmonth⟩

/-- A month is known by its numbers. -/
theorem monthNumbers_inj {month month' : String} {year number : ℕ} (h : monthNumbers month = some (year, number))
    (h' : monthNumbers month' = some (year, number)) : month = month' := by
  obtain ⟨-, cs₁, cs₂, hyear, hdash, hmonth⟩ := monthNumbers_eq_some h
  obtain ⟨-, cs₁', cs₂', hyear', hdash', hmonth'⟩ := monthNumbers_eq_some h'
  have hliteral : ∀ {c : Char} {cs rest : List Char}, literal c cs = some rest → cs = c :: rest := by
    intro c cs rest hcs
    cases cs with
    | nil => cases hcs
    | cons x cs =>
      unfold literal at hcs
      dsimp only at hcs
      split_ifs at hcs with hx
      cases hcs
      rw [hx]
  obtain ⟨ds, hds, hds'⟩ := digits_inj hyear hyear'
  obtain ⟨es, hes, hes'⟩ := digits_inj hmonth hmonth'
  rw [List.append_nil] at hes hes'
  refine String.toList_inj.1 ?_
  rw [hds, hds', hliteral hdash, hliteral hdash', hes, hes']

/-! ## Which periods there are -/

/-- The period of the day `d` in the month numbered `n`. -/
def periodAt (kind : PeriodKind) (month : String) (n d : ℤ) : PerformancePeriod where
  period := kind
  month := month
  day := dayText d
  key := dayText (daysOf kind n d).1
  start := dayStart (daysOf kind n d).1
  finish := dayStart (daysOf kind n d).2
  monthStart := dayStart (monthFirst n)
  monthEnd := dayStart (monthFirst (n + 1))

section Accepted

variable {other : String → Option ℤ} {today month : String} {year number : ℕ}

/-- The days of the months of this century that a query can name are dates. -/
theorem day_range {d n : ℤ} (h : monthOf d = n) (h₁ : 24_000 ≤ n) (h₂ : n < 25_200) : 10_957 ≤ d ∧ d < 47_482 := by
  obtain ⟨hle, hlt⟩ := monthOf_eq_iff.1 h
  have hfirst : monthFirst 24_000 ≤ monthFirst n := strictMono_monthFirst.le_iff_le.2 h₁
  have hlast : monthFirst (n + 1) ≤ monthFirst 25_200 := strictMono_monthFirst.le_iff_le.2 (by omega)
  have hstart : monthFirst 24_000 = 10_957 := by decide
  have hend : monthFirst 25_200 = 47_482 := by decide
  omega

theorem timeClip_dayStart {d : ℤ} (h : -1_000_000 ≤ d ∧ d ≤ 1_000_000) : timeClip (dayStart d) = some (dayStart d) := by
  unfold timeClip
  refine if_pos ?_
  unfold dayStart maxTime moscow day
  omega

/-- The day text of a day of the month is accepted. -/
theorem newDate_dayText {d : ℤ} (h₁ : 0 ≤ (civilFromDays d).1) (h₂ : (civilFromDays d).1 ≤ 9999)
    (hd : -1_000_000 ≤ d ∧ d ≤ 1_000_000) : newDate other (dayText d ++ "T00:00:00+03:00") = some (dayStart d) := by
  obtain ⟨y, m, dd, hy, hm, hdate, hread⟩ := dateOnly_dayText ⟨h₁, h₂⟩
  obtain ⟨hyear, hmonth, hdate'⟩ := utc_parts_of_day d
  have hmidnight : midnight y m dd = some (d * day) := by
    have := midnight_utc (d * day) (hm.trans hmonth.symm) (hdate.trans hdate'.symm)
    rw [hyear, ← hy, Int.mul_ediv_cancel d (by decide)] at this
    exact this
  rw [newDate_midnight other hread, hmidnight]
  exact timeClip_dayStart hd

/-- The first day of an accepted month. -/
theorem newDate_monthStart (hmonth : monthNumbers month = some (year, number)) :
    newDate other (month ++ "-01T00:00:00+03:00") = some (dayStart (monthFirst (12 * year + number - 1))) := by
  obtain ⟨⟨h₁, h₂, h₃, h₄⟩, cs₁, cs₂, hyear, hdash, hnumber⟩ := monthNumbers_eq_some hmonth
  have hone : literal '-' "-01".toList = some ['0', '1'] := by decide
  have hday : digits 2 ['0', '1'] = some (1, []) := by decide
  have hread : dateOnly (month ++ "-01").toList = some (year, number, 1) := by
    rw [String.toList_append]
    simp only [dateOnly, digits_append_tail hyear, literal_append hdash, digits_append_tail hnumber, List.nil_append, hone,
      hday, Option.bind_eq_bind, Option.bind_some, if_true]
  have hfirst : daysFromCivil year number 1 = monthFirst (12 * year + number - 1) := by
    rw [monthFirst, show (12 * (year : ℤ) + number - 1) / 12 = year by omega,
      show (12 * (year : ℤ) + number - 1) % 12 + 1 = number by omega]
  have hmidnight : midnight year number 1 = some (monthFirst (12 * year + number - 1) * day) := by
    rw [midnight, if_pos (by omega), hfirst, Nat.cast_one, add_sub_cancel_right]
  have hrange := day_range (d := monthFirst (12 * year + number - 1)) (n := 12 * year + number - 1)
    (monthOf_eq_iff.2 ⟨le_rfl, monthFirst_lt_succ _⟩) (by omega) (by omega)
  have htext : month ++ "-01T00:00:00+03:00" = month ++ "-01" ++ "T00:00:00+03:00" := by
    rw [String.append_assoc]
    rfl
  rw [htext, newDate_midnight other hread, hmidnight]
  exact timeClip_dayStart (by omega)

theorem monthEnd_eq (hmonth : monthNumbers month = some (year, number)) :
    utc year number 1 0 - moscow = dayStart (monthFirst (12 * year + number - 1 + 1)) := by
  obtain ⟨⟨h₁, h₂, h₃, h₄⟩, -⟩ := monthNumbers_eq_some hmonth
  have hfirst : daysFromCivil ((year : ℤ) + (number : ℤ) / 12) ((number : ℤ) % 12 + 1) 1 =
      monthFirst (12 * year + number - 1 + 1) := by
    rw [monthFirst, show (12 * (year : ℤ) + number - 1 + 1) / 12 = year + (number : ℤ) / 12 by omega,
      show (12 * (year : ℤ) + number - 1 + 1) % 12 = (number : ℤ) % 12 by omega]
  unfold utc dayStart
  dsimp only
  rw [if_neg (by omega), hfirst, add_sub_cancel_right, add_zero]

/-- A query that names a month and a kind is answered exactly for the texts of the days of the month. -/
theorem performancePeriod_ok_iff {query : PeriodQuery} {kind : PeriodKind} {p : PerformancePeriod}
    (hmonth : orElse query.month (slice today 7) = month) (hnumbers : monthNumbers month = some (year, number))
    (hkind : periodKind (orElse query.period "MONTH") = some kind) :
    performancePeriod other today query = .ok p ↔ ∃ d, monthOf d = 12 * year + number - 1 ∧
      chosenDay today month query = dayText d ∧ p = periodAt kind month (12 * year + number - 1) d := by
  obtain ⟨⟨h₁, h₂, h₃, h₄⟩, -⟩ := monthNumbers_eq_some hnumbers
  unfold performancePeriod
  rw [hmonth]
  dsimp only
  rw [hnumbers, hkind]
  dsimp only
  constructor
  · intro h
    split_ifs at h with hday
    obtain ⟨hshape, hslice⟩ := hday
    cases hanchor : newDate other (chosenDay today month query ++ "T00:00:00+03:00") with
    | none =>
      rw [hanchor] at h
      cases h
    | some anchor =>
      rw [hanchor] at h
      dsimp only at h
      split_ifs at h with hsame
      rw [newDate_monthStart hnumbers] at h
      dsimp only at h
      unfold isDayText at hshape
      cases hdate : dateOnly (chosenDay today month query).toList with
      | none =>
        rw [hdate] at hshape
        cases hshape
      | some date =>
        obtain ⟨y, m, dd⟩ := date
        rw [hdate] at hshape
        have hyears : 2000 ≤ y ∧ y ≤ 2099 := by simpa using hshape
        have hiso := hdate
        rw [← hsame, moscowDayText, slice, String.toList_ofList] at hiso
        obtain ⟨hy, hm, hd, -, -⟩ := dateOnly_take_isoString hiso
        have hmidnight := midnight_utc (anchor + moscow) hm hd
        rw [← hy] at hmidnight
        rw [newDate_midnight other hdate, hmidnight] at hanchor
        have heq : dayStart (dayOf anchor) = anchor := (timeClip_eq_some.1 hanchor).1
        have htext : chosenDay today month query = dayText (dayOf anchor) := by rw [← hsame, dayText, heq]
        have hyear : (y : ℤ) = (civilFromDays (dayOf anchor)).1 := hy
        have hmonth' : (m : ℤ) = (civilFromDays (dayOf anchor)).2.1 := hm.trans (sub_add_cancel _ _)
        have hbounds := civilFromDays_month (dayOf anchor)
        have hmonthOf : monthOf (dayOf anchor) = 12 * y + m - 1 := by
          unfold monthOf
          omega
        have hread := monthNumbers_dayText hmonthOf hyears.1 hyears.2 (by omega) (by omega)
        rw [← htext, hslice, hnumbers] at hread
        cases hread
        refine ⟨dayOf anchor, hmonthOf, htext, ?_⟩
        rw [← heq, monthEnd_eq hnumbers, bounds_eq] at h
        cases h
        rw [periodAt, htext]
        rfl
  · rintro ⟨d, hd, hchosen, rfl⟩
    obtain ⟨hyear, hmonth'⟩ := civil_of_monthOf hd (by omega) (by omega)
    have hrange := day_range hd (by omega) (by omega)
    have hslice : slice (dayText d) 7 = month :=
      monthNumbers_inj (monthNumbers_dayText hd h₁ h₂ h₃ h₄) hnumbers
    have hshape : isDayText (dayText d) = true := by
      obtain ⟨y, m, dd, hy, -, -, hread⟩ := dateOnly_dayText (d := d) (by omega)
      rw [isDayText, hread]
      simp only [Bool.and_eq_true, decide_eq_true_eq]
      omega
    have hnew : newDate other _ = _ := @newDate_dayText other d (by omega) (by omega) (by omega)
    rw [hchosen, if_pos ⟨hshape, hslice⟩, hnew]
    dsimp only
    rw [if_pos (show moscowDayText (dayStart d) = dayText d from rfl), newDate_monthStart hnumbers]
    dsimp only
    rw [monthEnd_eq hnumbers, bounds_eq]
    rfl

/-- The periods of a kind that queries for the month are answered with. -/
def Produced (other : String → Option ℤ) (today month : String) (kind : PeriodKind) (p : PerformancePeriod) : Prop :=
  ∃ query : PeriodQuery, orElse query.month (slice today 7) = month ∧
    periodKind (orElse query.period "MONTH") = some kind ∧ performancePeriod other today query = .ok p

theorem produced_iff (hnumbers : monthNumbers month = some (year, number)) {kind : PeriodKind} {p : PerformancePeriod} :
    Produced other today month kind p ↔
      ∃ d, monthOf d = 12 * year + number - 1 ∧ p = periodAt kind month (12 * year + number - 1) d := by
  constructor
  · rintro ⟨query, hmonth, hkind, hok⟩
    obtain ⟨d, hd, -, rfl⟩ := (performancePeriod_ok_iff hmonth hnumbers hkind).1 hok
    exact ⟨d, hd, rfl⟩
  · rintro ⟨d, hd, rfl⟩
    have hgiven : ∀ {text : String} (default : String), text.toList ≠ [] → orElse (some text) default = text := by
      intro text default hne
      have htext : text ≠ "" := by
        rintro rfl
        exact hne rfl
      rw [orElse, Option.filter_some_pos (by simpa using htext)]
      rfl
    have hmonth : month.toList ≠ [] := by
      intro hnil
      obtain ⟨-, cs₁, cs₂, hyear, -⟩ := monthNumbers_eq_some hnumbers
      rw [hnil] at hyear
      cases hyear
    have hday : (dayText d).toList ≠ [] := by
      intro hnil
      obtain ⟨⟨h₁, h₂, h₃, h₄⟩, -⟩ := monthNumbers_eq_some hnumbers
      have hcivil := civil_of_monthOf hd (by omega) (by omega)
      obtain ⟨y, m, dd, -, -, -, hread⟩ := dateOnly_dayText (d := d) (by omega)
      rw [hnil] at hread
      cases hread
    have hmonth' := hgiven (slice today 7) hmonth
    have hkind : periodKind (orElse (some kind.text) "MONTH") = some kind := by cases kind <;> decide
    refine ⟨⟨some kind.text, some month, some (dayText d)⟩, hmonth', hkind,
      (performancePeriod_ok_iff hmonth' hnumbers hkind).2 ⟨d, hd, ?_, rfl⟩⟩
    exact hgiven _ hday

end Accepted

/-! ## A month is divided into its periods -/

/-- A day is in its own period. -/
theorem mem_daysOf {kind : PeriodKind} {n d : ℤ} (h : monthOf d = n) :
    (daysOf kind n d).1 ≤ d ∧ d < (daysOf kind n d).2 := by
  have hmonth := monthOf_eq_iff.1 h
  cases kind with
  | month => exact hmonth
  | day => exact ⟨le_rfl, by simp [daysOf]⟩
  | week =>
    unfold daysOf weekOf
    dsimp only
    omega

/-- The days of a period are those of the month that have this period. -/
theorem daysOf_iff {kind : PeriodKind} {n d x : ℤ} (h : monthOf d = n) :
    (daysOf kind n d).1 ≤ x ∧ x < (daysOf kind n d).2 ↔ monthOf x = n ∧ daysOf kind n x = daysOf kind n d := by
  have hmonth := monthOf_eq_iff.1 h
  constructor
  · intro hx
    cases kind with
    | month => exact ⟨monthOf_eq_iff.2 hx, rfl⟩
    | day =>
      obtain rfl : x = d := by
        unfold daysOf at hx
        dsimp only at hx
        omega
      exact ⟨h, rfl⟩
    | week =>
      unfold daysOf at hx ⊢
      dsimp only at hx ⊢
      have hweek : weekOf x = weekOf d := by
        unfold weekOf at *
        omega
      exact ⟨monthOf_eq_iff.2 (by omega), by rw [hweek]⟩
  · rintro ⟨hx, heq⟩
    rw [← heq]
    exact mem_daysOf hx

/-- The instants of the period of a day. -/
def spanOf (kind : PeriodKind) (n d : ℤ) : Period := ⟨dayStart (daysOf kind n d).1, dayStart (daysOf kind n d).2⟩

/-- The periods of the month. -/
noncomputable def monthSpans (kind : PeriodKind) (n : ℤ) : Finset Period :=
  (Finset.Ico (monthFirst n) (monthFirst (n + 1))).image (spanOf kind n)

theorem mem_monthSpans {kind : PeriodKind} {n : ℤ} {span : Period} :
    span ∈ monthSpans kind n ↔ ∃ d, monthOf d = n ∧ spanOf kind n d = span := by
  simp only [monthSpans, Finset.mem_image, Finset.mem_Ico, monthOf_eq_iff]

theorem dayStart_le_iff {d t : ℤ} : dayStart d ≤ t ↔ d ≤ dayOf t := by
  unfold dayStart dayOf moscow day
  omega

theorem spanOf_has_iff {kind : PeriodKind} {n d t : ℤ} (h : monthOf d = n) :
    (spanOf kind n d).has t ↔ monthOf (dayOf t) = n ∧ daysOf kind n (dayOf t) = daysOf kind n d := by
  rw [← daysOf_iff h, Period.has, spanOf]
  dsimp only
  rw [dayStart_le_iff, ← not_le, dayStart_le_iff, not_le]

/-- The periods cover the instants of the month and no others. -/
theorem monthSpans_cover {kind : PeriodKind} {n t : ℤ} :
    monthOf (dayOf t) = n ↔ ∃ span ∈ monthSpans kind n, span.has t := by
  constructor
  · intro ht
    exact ⟨_, mem_monthSpans.2 ⟨dayOf t, ht, rfl⟩, (spanOf_has_iff ht).2 ⟨ht, rfl⟩⟩
  · rintro ⟨span, hspan, ht⟩
    obtain ⟨d, hd, rfl⟩ := mem_monthSpans.1 hspan
    exact ((spanOf_has_iff hd).1 ht).1

/-- No two of them share an instant. -/
theorem monthSpans_disjoint {kind : PeriodKind} {n t : ℤ} {span span' : Period} (h : span ∈ monthSpans kind n)
    (h' : span' ∈ monthSpans kind n) (ht : span.has t) (ht' : span'.has t) : span = span' := by
  obtain ⟨d, hd, rfl⟩ := mem_monthSpans.1 h
  obtain ⟨d', hd', rfl⟩ := mem_monthSpans.1 h'
  have heq := ((spanOf_has_iff hd).1 ht).2.symm.trans ((spanOf_has_iff hd').1 ht').2
  rw [spanOf, spanOf, heq]

/-- The instants of the month. -/
def monthPeriod (n : ℤ) : Period := ⟨dayStart (monthFirst n), dayStart (monthFirst (n + 1))⟩

theorem monthPeriod_has {n t : ℤ} : (monthPeriod n).has t ↔ monthOf (dayOf t) = n := by
  unfold monthPeriod Period.has
  rw [monthOf_eq_iff, dayStart_le_iff, ← not_le, dayStart_le_iff, not_le]

def PerformancePeriod.span (p : PerformancePeriod) : Period := ⟨p.start, p.finish⟩

/-- Each begins with a day of the month. -/
theorem spanOf_first {kind : PeriodKind} {n d : ℤ} (h : monthOf d = n) : monthOf (daysOf kind n d).1 = n :=
  ((daysOf_iff h).1 ⟨le_rfl, (mem_daysOf h).1.trans_lt (mem_daysOf h).2⟩).1

section Division

variable {other : String → Option ℤ} {today month : String} {year number : ℕ} {kind : PeriodKind}

/-- The periods of the month are those that queries are answered with. -/
theorem mem_monthSpans_iff (hnumbers : monthNumbers month = some (year, number)) {span : Period} :
    span ∈ monthSpans kind (12 * year + number - 1) ↔
      ∃ p, Produced other today month kind p ∧ p.span = span := by
  rw [mem_monthSpans]
  constructor
  · rintro ⟨d, hd, rfl⟩
    exact ⟨_, (produced_iff hnumbers).2 ⟨d, hd, rfl⟩, rfl⟩
  · rintro ⟨p, hp, rfl⟩
    obtain ⟨d, hd, rfl⟩ := (produced_iff hnumbers).1 hp
    exact ⟨d, hd, rfl⟩

/-- Different periods of the month have different keys. -/
theorem span_eq_of_key_eq (hnumbers : monthNumbers month = some (year, number)) {p p' : PerformancePeriod}
    (hp : Produced other today month kind p) (hp' : Produced other today month kind p') (hkey : p.key = p'.key) :
    p.span = p'.span := by
  obtain ⟨⟨h₁, h₂, h₃, h₄⟩, -⟩ := monthNumbers_eq_some hnumbers
  obtain ⟨d, hd, rfl⟩ := (produced_iff hnumbers).1 hp
  obtain ⟨d', hd', rfl⟩ := (produced_iff hnumbers).1 hp'
  have hcivil := civil_of_monthOf (@spanOf_first kind _ _ hd) (by omega) (by omega)
  have hcivil' := civil_of_monthOf (@spanOf_first kind _ _ hd') (by omega) (by omega)
  have hfirst := dayText_inj (by omega) (by omega) hkey
  -- the first day is in both periods
  have hin := (daysOf_iff hd).1 ⟨le_rfl, (@mem_daysOf kind _ _ hd).1.trans_lt (mem_daysOf hd).2⟩
  have hin' := (daysOf_iff hd').1 ⟨le_rfl, (@mem_daysOf kind _ _ hd').1.trans_lt (mem_daysOf hd').2⟩
  have hsame : daysOf kind (12 * year + number - 1) d = daysOf kind (12 * year + number - 1) d' := by
    rw [← hin.2, ← hin'.2, hfirst]
  unfold PerformancePeriod.span periodAt
  rw [hsame]

/-- They are made of whole days, within the month that goes with them. -/
theorem produced_bounds (hnumbers : monthNumbers month = some (year, number)) {p : PerformancePeriod}
    (hp : Produced other today month kind p) : (∃ a b, a < b ∧ p.start = dayStart a ∧ p.finish = dayStart b) ∧
      (⟨p.monthStart, p.monthEnd⟩ : Period) = monthPeriod (12 * year + number - 1) := by
  obtain ⟨d, hd, rfl⟩ := (produced_iff hnumbers).1 hp
  obtain ⟨hle, hlt⟩ := @mem_daysOf kind _ _ hd
  exact ⟨⟨_, _, hle.trans_lt hlt, rfl, rfl⟩, rfl⟩

end Division

end AmoAnalytics.Workspaces
