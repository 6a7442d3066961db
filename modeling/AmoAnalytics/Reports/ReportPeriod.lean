import AmoAnalytics.Lib.DateText
import AmoAnalytics.Common.BusinessTime

/-!
# The period of a report and of its comparison

A report evaluates its filters through `parseFilterDate`, which reads a date alone as a whole day in Moscow; the
comparison reads the same texts through `new Date`, which reads a date alone as midnight UTC. The two agree on texts
with a time, and there the comparison period ends one millisecond before the report's and is as long
(`previousPeriod_adjacent_iff`).
-/

namespace AmoAnalytics.Reports

open CivilDate Common DateText

/-! ## `reports.service.ts` -/

structure ReportFilters where
  dateFrom : Option String
  dateTo : Option String

/-- A filter date that is given: not the empty text. -/
def given (value : Option String) : Option String := value.filter (· ≠ "")

/-- A bound is there when the filter gives it; its date may be invalid. -/
structure DateRange where
  gte : Option (Option ℤ)
  lte : Option (Option ℤ)
deriving DecidableEq

/-- Both bounds are there and valid. -/
def DateRange.between (a b : ℤ) : DateRange := ⟨some (some a), some (some b)⟩
section Functions

variable (other : String → Option ℤ)

def parseFilterDate (value : String) (endOfDay : Bool) : Option ℤ :=
  match dateOnly value.toList with
  | some (year, month, dayOfMonth) =>
    if endOfDay then timeClip (moscowDate year month dayOfMonth 23 59 59 999)
    else timeClip (moscowDate year month dayOfMonth 0 0 0 0)
  | none => newDate other value

def dateRange (filters : ReportFilters) : DateRange where
  gte := (given filters.dateFrom).map fun value => parseFilterDate other value false
  lte := (given filters.dateTo).map fun value => parseFilterDate other value true

def assertReportPeriod (maxRangeDays : ℤ) (filters : ReportFilters) : Except String Unit :=
  match given filters.dateFrom, given filters.dateTo with
  | none, none => .ok ()
  | some dateFrom, some dateTo =>
    match parseFilterDate other dateFrom false, parseFilterDate other dateTo true with
    | some fromTime, some toTime =>
      if toTime < fromTime then .error "Начало периода отчёта не может быть позже конца"
      else if maxRangeDays < -(-(toTime - fromTime) / day) then
        .error ("Период отчёта не может превышать " ++ toString maxRangeDays ++ " дней")
      else .ok ()
    | _, _ => .error "Период отчёта содержит некорректную дату"
  | _, _ => .error "Для периода отчёта нужны обе даты: начало и конец"

/-- `toISOString` throws for an invalid date. -/
def toISOString (date : Option ℤ) : Except String String :=
  match date with
  | some ms => .ok (isoString ms)
  | none => .error "Invalid time value"

def previousPeriodFilters (filters : ReportFilters) : Except String (Option ReportFilters) :=
  match given filters.dateFrom, given filters.dateTo with
  | some dateFrom, some dateTo =>
    match newDate other dateFrom, newDate other dateTo with
    | some fromTime, some toTime =>
      if toTime ≤ fromTime then .ok none
      else do
        let durationMs := toTime - fromTime
        let previousTo := timeClip (fromTime - 1)
        let previousFrom := previousTo.bind fun ms => timeClip (ms - durationMs)
        let dateFrom ← toISOString previousFrom
        let dateTo ← toISOString previousTo
        return some { dateFrom := some dateFrom, dateTo := some dateTo }
    | _, _ => .ok none
  | _, _ => .ok none

end Functions

/-! ## Dates -/

section Dates

variable {other : String → Option ℤ}

/-- A date alone is a midnight for `new Date`. -/
theorem newDate_dateOnly {text : String} {date : ℕ × ℕ × ℕ} {t : ℤ} (hdate : dateOnly text.toList = some date)
    (h : newDate other text = some t) : t % day = 0 := by
  unfold newDate at h
  rw [hdate] at h
  obtain ⟨ms, hms, hclip⟩ := Option.bind_eq_some_iff.1 h
  obtain ⟨rfl, -⟩ := timeClip_eq_some.1 hclip
  unfold midnight at hms
  split_ifs at hms
  cases hms
  exact Int.mul_emod_left _ _

theorem moscowDate_eq (year month dayOfMonth hours minute second ms : ℤ) :
    ∃ days, moscowDate year month dayOfMonth hours minute second ms =
      days * day + ((hours - 3) * hour + minute * 60_000 + second * 1_000 + ms) := ⟨_, rfl⟩

/-- For the filter it begins at 21:00 UTC and ends a millisecond earlier. -/
theorem parseFilterDate_dateOnly {value : String} {date : ℕ × ℕ × ℕ} {endOfDay : Bool} {t : ℤ}
    (hdate : dateOnly value.toList = some date) (h : parseFilterDate other value endOfDay = some t) :
    t % day = if endOfDay then 21 * hour - 1 else 21 * hour := by
  unfold parseFilterDate at h
  rw [hdate] at h
  cases endOfDay with
  | false =>
    obtain ⟨rfl, -⟩ := timeClip_eq_some.1 (show timeClip (moscowDate date.1 date.2.1 date.2.2 0 0 0 0) = some t from h)
    obtain ⟨days, hdays⟩ := moscowDate_eq date.1 date.2.1 date.2.2 0 0 0 0
    rw [hdays, if_neg Bool.false_ne_true]
    unfold day hour
    omega
  | true =>
    obtain ⟨rfl, -⟩ :=
      timeClip_eq_some.1 (show timeClip (moscowDate date.1 date.2.1 date.2.2 23 59 59 999) = some t from h)
    obtain ⟨days, hdays⟩ := moscowDate_eq date.1 date.2.1 date.2.2 23 59 59 999
    rw [hdays, if_pos rfl]
    unfold day hour
    omega

theorem parseFilterDate_instant {value : String} (hdate : dateOnly value.toList = none) (endOfDay : Bool) :
    parseFilterDate other value endOfDay = newDate other value := by
  unfold parseFilterDate
  rw [hdate]

theorem given_isoString (ms : ℤ) : given (some (isoString ms)) = some (isoString ms) := by
  have hne : isoString ms ≠ "" := by
    intro hnil
    have hempty : (isoString ms).toList = [] := by rw [hnil]; rfl
    rw [toList_isoString] at hempty
    exact absurd (List.append_eq_nil_iff.1 hempty).2 (List.cons_ne_nil _ _)
  exact Option.filter_some_pos (by simpa using hne)

/-- Bounds written by `toISOString` are evaluated as themselves. -/
theorem dateRange_isoString {a b : ℤ} (ha : -maxTime ≤ a ∧ a ≤ maxTime) (hb : -maxTime ≤ b ∧ b ≤ maxTime) :
    dateRange other ⟨some (isoString a), some (isoString b)⟩ = .between a b := by
  unfold dateRange
  dsimp only
  rw [given_isoString, given_isoString, Option.map_some, Option.map_some,
    parseFilterDate_instant dateOnly_isoString, parseFilterDate_instant dateOnly_isoString, newDate_isoString other ha,
    newDate_isoString other hb]
  rfl

end Dates

/-! ## The comparison period -/

section Comparison

variable {other : String → Option ℤ} {filters : ReportFilters} {dateFrom dateTo : String}

/-- What the comparison filters are, and when there are some. -/
theorem previousPeriodFilters_eq_some (hfrom : given filters.dateFrom = some dateFrom)
    (hto : given filters.dateTo = some dateTo) {previous : ReportFilters} :
    previousPeriodFilters other filters = .ok (some previous) ↔
      ∃ fromTime toTime, newDate other dateFrom = some fromTime ∧ newDate other dateTo = some toTime ∧
        fromTime < toTime ∧ -maxTime ≤ fromTime - 1 - (toTime - fromTime) ∧
        previous = ⟨some (isoString (fromTime - 1 - (toTime - fromTime))), some (isoString (fromTime - 1))⟩ := by
  unfold previousPeriodFilters
  rw [hfrom, hto]
  dsimp only
  cases hstart : newDate other dateFrom with
  | none => simp
  | some fromTime =>
    cases hend : newDate other dateTo with
    | none => simp
    | some toTime =>
      have hrange := newDate_range hstart
      dsimp only
      by_cases hle : toTime ≤ fromTime
      · rw [if_pos hle]
        constructor
        · intro h
          cases h
        · rintro ⟨_, _, ⟨⟩, ⟨⟩, hlt, -⟩
          omega
      · rw [if_neg hle]
        by_cases hearly : -maxTime ≤ fromTime - 1 - (toTime - fromTime)
        · have hto : timeClip (fromTime - 1) = some (fromTime - 1) := timeClip_eq_some.2 ⟨rfl, by omega, by omega⟩
          have hfrom : timeClip (fromTime - 1 - (toTime - fromTime)) = some (fromTime - 1 - (toTime - fromTime)) :=
            timeClip_eq_some.2 ⟨rfl, hearly, by omega⟩
          rw [hto, Option.bind_some, hfrom]
          constructor
          · rintro ⟨⟩
            exact ⟨fromTime, toTime, rfl, rfl, by omega, hearly, rfl⟩
          · rintro ⟨_, _, ⟨⟩, ⟨⟩, -, -, rfl⟩
            rfl
        · have hnone : (timeClip (fromTime - 1)).bind (fun ms => timeClip (ms - (toTime - fromTime))) = none := by
            rw [Option.bind_eq_none_iff]
            rintro ms hms
            obtain ⟨rfl, -⟩ := timeClip_eq_some.1 hms
            exact if_neg fun h => hearly h.1
          rw [hnone]
          constructor
          · rintro ⟨⟩
          · rintro ⟨_, _, ⟨⟩, ⟨⟩, -, h, -⟩
            exact absurd h hearly

/-- An accepted period with both dates is evaluated as an interval. -/
theorem between_of_assertReportPeriod {maxRangeDays : ℤ} (hfrom : given filters.dateFrom = some dateFrom)
    (hto : given filters.dateTo = some dateTo) (h : assertReportPeriod other maxRangeDays filters = .ok ()) :
    ∃ a b, parseFilterDate other dateFrom false = some a ∧ parseFilterDate other dateTo true = some b ∧ a ≤ b ∧
      dateRange other filters = .between a b := by
  unfold assertReportPeriod at h
  rw [hfrom, hto] at h
  dsimp only at h
  cases hstart : parseFilterDate other dateFrom false with
  | none =>
    rw [hstart] at h
    cases h
  | some a =>
    cases hend : parseFilterDate other dateTo true with
    | none =>
      rw [hstart, hend] at h
      cases h
    | some b =>
      rw [hstart, hend] at h
      dsimp only at h
      split_ifs at h with hlt hlong
      refine ⟨a, b, rfl, rfl, not_lt.1 hlt, ?_⟩
      rw [dateRange, hfrom, hto, Option.map_some, Option.map_some, hstart, hend]
      rfl

/-- The period evaluated for the comparison ends one millisecond before the report's, shares no instant with it and
is as long. -/
def PrecedesDirectly (other : String → Option ℤ) (filters : ReportFilters) (a b : ℤ) : Prop :=
  ∃ previous a' b', previousPeriodFilters other filters = .ok (some previous) ∧
    dateRange other previous = .between a' b' ∧ Disjoint (Set.Icc a' b') (Set.Icc a b) ∧ b' + 1 = a ∧ b' - a' = b - a

/-- The comparison period directly precedes the report's exactly when both dates have a time, the period is more than
one instant and the earliest date the language has is not passed. -/
theorem previousPeriod_adjacent_iff {maxRangeDays : ℤ} (hfrom : given filters.dateFrom = some dateFrom)
    (hto : given filters.dateTo = some dateTo) (h : assertReportPeriod other maxRangeDays filters = .ok ()) :
    ∃ a b, dateRange other filters = .between a b ∧ (PrecedesDirectly other filters a b ↔
      dateOnly dateFrom.toList = none ∧ dateOnly dateTo.toList = none ∧ a < b ∧ -maxTime ≤ a - 1 - (b - a)) := by
  obtain ⟨a, b, hstart, hend, hle, hrange⟩ := between_of_assertReportPeriod hfrom hto h
  refine ⟨a, b, hrange, ?_⟩
  constructor
  · rintro ⟨previous, a', b', hprevious, hevaluated, -, hadjacent, hlength⟩
    obtain ⟨fromTime, toTime, hfromTime, htoTime, hlt, hearly, rfl⟩ :=
      (previousPeriodFilters_eq_some hfrom hto).1 hprevious
    have hbounds := newDate_range hfromTime
    rw [dateRange_isoString ⟨hearly, by omega⟩ ⟨by omega, by omega⟩] at hevaluated
    obtain ⟨rfl, rfl⟩ : fromTime - 1 - (toTime - fromTime) = a' ∧ fromTime - 1 = b' := by
      unfold DateRange.between at hevaluated
      simpa using hevaluated
    have hsame : a = fromTime ∧ b = toTime := by omega
    obtain ⟨rfl, rfl⟩ := hsame
    -- a date alone begins and ends at other times of the day for the two readings
    have hfromText : dateOnly dateFrom.toList = none := by
      cases hdate : dateOnly dateFrom.toList with
      | none => rfl
      | some date =>
        have h₁ := newDate_dateOnly hdate hfromTime
        have h₂ := parseFilterDate_dateOnly hdate hstart
        rw [if_neg Bool.false_ne_true] at h₂
        exact absurd (h₁.symm.trans h₂) (by decide)
    have htoText : dateOnly dateTo.toList = none := by
      cases hdate : dateOnly dateTo.toList with
      | none => rfl
      | some date =>
        have h₁ := newDate_dateOnly hdate htoTime
        have h₂ := parseFilterDate_dateOnly hdate hend
        rw [if_pos rfl] at h₂
        exact absurd (h₁.symm.trans h₂) (by decide)
    exact ⟨hfromText, htoText, hlt, hearly⟩
  · rintro ⟨hfromText, htoText, hlt, hearly⟩
    rw [parseFilterDate_instant hfromText] at hstart
    rw [parseFilterDate_instant htoText] at hend
    have hbounds := newDate_range hstart
    refine ⟨_, a - 1 - (b - a), a - 1, (previousPeriodFilters_eq_some hfrom hto).2
      ⟨a, b, hstart, hend, hlt, hearly, rfl⟩, dateRange_isoString ⟨hearly, by omega⟩ ⟨by omega, by omega⟩, ?_, by omega,
      by omega⟩
    rw [Set.disjoint_left]
    rintro t ⟨-, hbefore⟩ ⟨hafter, -⟩
    omega

/-- Two whole days of July with their times. -/
theorem previousPeriod_adjacent_sample :
    ∃ a b, dateRange (fun _ => none) ⟨some "2026-07-19T21:00:00Z", some "2026-07-21T20:59:59.999Z"⟩ = .between a b ∧
      (PrecedesDirectly (fun _ => none) ⟨some "2026-07-19T21:00:00Z", some "2026-07-21T20:59:59.999Z"⟩ a b ↔
        dateOnly "2026-07-19T21:00:00Z".toList = none ∧ dateOnly "2026-07-21T20:59:59.999Z".toList = none ∧ a < b ∧
          -maxTime ≤ a - 1 - (b - a)) :=
  previousPeriod_adjacent_iff rfl rfl (show assertReportPeriod _ 1_827 _ = _ by decide)

/-- The same two days as dates alone: the comparison period reaches three hours into the report's. -/
theorem previousPeriod_overlaps :
    assertReportPeriod (fun _ => none) 1_827 ⟨some "2026-07-20", some "2026-07-21"⟩ = .ok () ∧
      ¬ ∃ a b, dateRange (fun _ => none) ⟨some "2026-07-20", some "2026-07-21"⟩ = .between a b ∧
        PrecedesDirectly (fun _ => none) ⟨some "2026-07-20", some "2026-07-21"⟩ a b := by
  refine ⟨by decide, ?_⟩
  rintro ⟨a, b, hrange, previous, a', b', hprevious, hevaluated, -, hadjacent, -⟩
  obtain ⟨fromTime, toTime, hfromTime, htoTime, hlt, hearly, rfl⟩ :=
    (previousPeriodFilters_eq_some (show given _ = some "2026-07-20" from rfl)
      (show given _ = some "2026-07-21" from rfl)).1 hprevious
  have hstart : newDate (fun _ => none) "2026-07-20" = some 1_784_505_600_000 := by decide
  have hend : newDate (fun _ => none) "2026-07-21" = some 1_784_592_000_000 := by decide
  rw [hstart] at hfromTime
  rw [hend] at htoTime
  cases hfromTime
  cases htoTime
  have hprevious : dateRange (fun _ => none) ⟨some (isoString (1_784_505_600_000 - 1 - 86_400_000)),
      some (isoString (1_784_505_600_000 - 1))⟩ = _ := dateRange_isoString (by decide) (by decide)
  cases hprevious.symm.trans hevaluated
  have hcurrent : parseFilterDate (fun _ => none) "2026-07-20" false = some 1_784_494_800_000 := by decide
  have hgte : some (parseFilterDate (fun _ => none) "2026-07-20" false) = some (some a) :=
    congrArg DateRange.gte hrange
  rw [hcurrent] at hgte
  cases hgte
  exact absurd hadjacent (by decide)

end Comparison

end AmoAnalytics.Reports
