import AmoAnalytics.Lib.CivilCalendar
import AmoAnalytics.Lib.CountedTime
import AmoAnalytics.Lib.ZoneOffset

/-!
# Moscow business time

The working hours of `date.util.ts`: Monday to Friday from 10:00 to 19:00. The parts of a date come from the time zone
data base of the runtime, an offset function; `moscowDate` counts with a fixed offset of three hours. Where the data
base agrees with it, the elapsed business time of two instants is the working time between them, and adding a duration
gives the least instant at which it has elapsed.
-/

namespace AmoAnalytics.Common

open CivilDate ZoneOffset CountedTime

/-! ## `date.util.ts` -/

def moscowWorkdayStartHour : ℤ := 10
def moscowWorkdayEndHour : ℤ := 19

structure MoscowParts where
  year : ℤ
  month : ℤ
  day : ℤ
  hour : ℤ
  minute : ℤ
  second : ℤ
  dayOfWeek : ℤ

def moscowDate (year month dayOfMonth hours minute second ms : ℤ) : ℤ :=
  utc year (month - 1) dayOfMonth ((hours - 3) * hour + minute * 60_000 + second * 1_000 + ms)

def isMoscowBusinessDay (parts : MoscowParts) : Bool := 1 ≤ parts.dayOfWeek && parts.dayOfWeek ≤ 5

section Functions

variable (offset : ℤ → ℤ)

/-- The parts that the formatter of the zone shows. -/
def moscowParts (date : ℤ) : MoscowParts :=
  let shown := localTime offset date
  { year := utcYear shown
    month := utcMonth shown + 1
    day := utcDate shown
    hour := timeOfDay shown / hour
    minute := timeOfDay shown / 60_000 % 60
    second := timeOfDay shown / 1_000 % 60
    dayOfWeek := utcDay (utc (utcYear shown) (utcMonth shown + 1 - 1) (utcDate shown) 0) }

/-- One of the next days: its opening, when it is a business day. -/
def openingAfter (parts : MoscowParts) (days : ℤ) : Option ℤ :=
  let candidate := moscowParts offset (moscowDate parts.year parts.month (parts.day + days) 12 0 0 0)
  if isMoscowBusinessDay candidate then
    some (moscowDate candidate.year candidate.month candidate.day moscowWorkdayStartHour 0 0 0)
  else none

def nextMoscowBusinessStart (date : ℤ) : ℤ :=
  let parts := moscowParts offset date
  let minutes := parts.hour * 60 + parts.minute
  if isMoscowBusinessDay parts && minutes < moscowWorkdayStartHour * 60 then
    moscowDate parts.year parts.month parts.day moscowWorkdayStartHour 0 0 0
  else if isMoscowBusinessDay parts && minutes < moscowWorkdayEndHour * 60 then date
  else
    match [1, 2, 3, 4, 5, 6, 7].findSome? (openingAfter offset parts) with
    | some opening => opening
    | none => moscowDate parts.year parts.month (parts.day + 1) moscowWorkdayStartHour 0 0 0

/-- The end of the working day of an instant. -/
def dayEnd (date : ℤ) : ℤ :=
  let parts := moscowParts offset date
  moscowDate parts.year parts.month parts.day moscowWorkdayEndHour 0 0 0

/-- The loop of `addMoscowBusinessTime`. -/
def addLoop : ℕ → ℤ → ℤ → Option ℤ
  | 0, _, _ => none
  | fuel + 1, cursor, remaining =>
    if 0 < remaining then
      let available := max 0 (dayEnd offset cursor - cursor)
      if remaining ≤ available then some (cursor + remaining)
      else addLoop fuel (nextMoscowBusinessStart offset (dayEnd offset cursor + 1)) (remaining - available)
    else some cursor

def addMoscowBusinessTime (start milliseconds : ℤ) (fuel : ℕ) : Option ℤ :=
  let cursor := nextMoscowBusinessStart offset start
  let remaining := max 0 milliseconds
  if remaining = 0 then some cursor else addLoop offset fuel cursor remaining

/-- The loop of `moscowBusinessElapsedMs`. -/
def elapsedLoop (finish : ℤ) : ℕ → ℤ → ℤ → Option ℤ
  | 0, _, _ => none
  | fuel + 1, cursor, total =>
    if cursor < finish then
      let workStart := nextMoscowBusinessStart offset cursor
      if finish ≤ workStart then some total
      else
        let workEnd := dayEnd offset workStart
        let chunkEnd := if workEnd < finish then workEnd else finish
        elapsedLoop finish fuel (workEnd + 1) (total + max 0 (chunkEnd - workStart))
    else some total

def moscowBusinessElapsedMs (start finish : ℤ) (fuel : ℕ) : Option ℤ :=
  if finish ≤ start then some 0 else elapsedLoop offset finish fuel start 0

end Functions

/-! ## Working time -/

/-- The date in Moscow, as a day number. -/
def moscowDay (t : ℤ) : ℤ := (t + 3 * hour) / day

/-- The time of day in Moscow. -/
def moscowClock (t : ℤ) : ℤ := (t + 3 * hour) % day

/-- Monday to Friday from 10:00 to 19:00 at three hours from UTC. -/
def Working (t : ℤ) : Prop :=
  MondayToFriday (moscowDay t) ∧ 10 * hour ≤ moscowClock t ∧ moscowClock t < 19 * hour

instance : DecidablePred Working := fun _ => inferInstanceAs (Decidable (_ ∧ _))

/-- From the instant on, in the year 100 or later, the zone has its fixed offset. -/
structure FixedFrom (offset : ℤ → ℤ) (since : ℤ) : Prop where
  century : firstCentury ≤ since + 3 * hour
  fixed : ∀ t, since ≤ t → offset t = 3 * hour

/-! ## The parts of an instant -/

section Parts

variable {offset : ℤ → ℤ} {since t : ℤ}

/-- A day counted from a date is reached by `Date.UTC`. -/
theorem utc_days {ms : ℤ} (h : firstCentury ≤ ms) (days time : ℤ) :
    utc (utcYear ms) (utcMonth ms) (utcDate ms + days) time = (ms / day + days) * day + time := by
  have hyear := utcYear_of_firstCentury_le h
  have hparts : utc (utcYear ms) (utcMonth ms) (utcDate ms) (timeOfDay ms) = ms := utc_of_parts (by omega)
  have hsplit : ms / day * day + timeOfDay ms = ms := Int.ediv_mul_add_emod ms day
  unfold utc at hparts ⊢
  dsimp only at hparts ⊢
  rw [if_neg (by omega)] at hparts ⊢
  unfold day at *
  omega

theorem local_of_fixed (h : FixedFrom offset since) (ht : since ≤ t) : localTime offset t = t + 3 * hour := by
  rw [localTime, h.fixed t ht]

theorem century_of_fixed (h : FixedFrom offset since) (ht : since ≤ t) : firstCentury ≤ t + 3 * hour := by
  have := h.century
  omega

theorem moscowDate_parts (h : FixedFrom offset since) (ht : since ≤ t) (days hours : ℤ) :
    moscowDate (moscowParts offset t).year (moscowParts offset t).month ((moscowParts offset t).day + days) hours
      0 0 0 = (moscowDay t + days) * day + (hours - 3) * hour := by
  unfold moscowDate moscowParts moscowDay
  dsimp only
  rw [local_of_fixed h ht, add_sub_cancel_right, utc_days (century_of_fixed h ht)]
  omega

theorem dayOfWeek_eq (h : FixedFrom offset since) (ht : since ≤ t) :
    (moscowParts offset t).dayOfWeek = (moscowDay t + 4) % 7 := by
  have hdate := utc_days (century_of_fixed h ht) 0 0
  rw [add_zero, add_zero, add_zero] at hdate
  unfold moscowParts moscowDay
  dsimp only
  rw [local_of_fixed h ht, add_sub_cancel_right, hdate, utcDay, Int.mul_ediv_cancel _ (by decide)]

theorem isMoscowBusinessDay_iff (h : FixedFrom offset since) (ht : since ≤ t) :
    isMoscowBusinessDay (moscowParts offset t) = true ↔ MondayToFriday (moscowDay t) := by
  unfold isMoscowBusinessDay MondayToFriday
  rw [Bool.and_eq_true, decide_eq_true_eq, decide_eq_true_eq, dayOfWeek_eq h ht]

/-- The minutes of the parts are before a whole hour when the time of day is. -/
theorem minutes_lt_iff (h : FixedFrom offset since) (ht : since ≤ t) (hours : ℤ) :
    (moscowParts offset t).hour * 60 + (moscowParts offset t).minute < hours * 60 ↔
      moscowClock t < hours * hour := by
  unfold moscowParts moscowClock timeOfDay
  dsimp only
  rw [local_of_fixed h ht]
  unfold day hour
  omega

end Parts

/-! ## The next working instant -/

section Next

variable {offset : ℤ → ℤ} {since t : ℤ}

/-- The opening of a day. -/
def opening (date : ℤ) : ℤ := date * day + 7 * hour

/-- The closing of a day. -/
def closing (date : ℤ) : ℤ := date * day + 16 * hour

/-- An instant is working when it lies between the opening and the closing of its working day. -/
theorem working_iff : Working t ↔
    MondayToFriday (moscowDay t) ∧ opening (moscowDay t) ≤ t ∧ t < closing (moscowDay t) := by
  unfold Working opening closing moscowDay moscowClock
  have hsplit := Int.ediv_mul_add_emod (t + 3 * hour) day
  constructor
  · rintro ⟨hday, hopen, hclose⟩
    exact ⟨hday, by omega, by omega⟩
  · rintro ⟨hday, hopen, hclose⟩
    exact ⟨hday, by omega, by omega⟩

theorem moscowDay_eq {date : ℤ} (hopen : opening date ≤ t) (hclose : t ≤ closing date) : moscowDay t = date := by
  unfold moscowDay opening closing day hour at *
  omega

theorem working_of_day {date : ℤ} (hday : MondayToFriday date) (hopen : opening date ≤ t)
    (hclose : t < closing date) : Working t := by
  have heq := moscowDay_eq hopen hclose.le
  exact working_iff.2 ⟨heq ▸ hday, heq ▸ hopen, heq ▸ hclose⟩

theorem not_working_closing (date : ℤ) : ¬ Working (closing date) := by
  have heq : moscowDay (closing date) = date :=
    moscowDay_eq (by unfold opening closing hour; omega) le_rfl
  intro hworking
  have hlt := (working_iff.1 hworking).2.2
  rw [heq] at hlt
  exact lt_irrefl _ hlt

theorem opening_eq (h : FixedFrom offset since) (ht : since ≤ t) :
    moscowDate (moscowParts offset t).year (moscowParts offset t).month (moscowParts offset t).day
      moscowWorkdayStartHour 0 0 0 = opening (moscowDay t) := by
  have heq := moscowDate_parts h ht 0 moscowWorkdayStartHour
  rw [add_zero, add_zero] at heq
  exact heq

theorem dayEnd_eq (h : FixedFrom offset since) (ht : since ≤ t) : dayEnd offset t = closing (moscowDay t) := by
  have heq := moscowDate_parts h ht 0 moscowWorkdayEndHour
  rw [add_zero, add_zero] at heq
  exact heq

theorem openingAfter_eq (h : FixedFrom offset since) (ht : since ≤ t) {days : ℤ} (hdays : 1 ≤ days) :
    openingAfter offset (moscowParts offset t) days =
      if MondayToFriday (moscowDay t + days) then some (opening (moscowDay t + days)) else none := by
  have hnoon := moscowDate_parts h ht days 12
  have hday : moscowDay ((moscowDay t + days) * day + (12 - 3) * hour) = moscowDay t + days :=
    moscowDay_eq (by unfold opening hour; omega) (by unfold closing hour; omega)
  have hafter : since ≤ (moscowDay t + days) * day + (12 - 3) * hour := by
    unfold moscowDay day hour
    omega
  unfold openingAfter
  dsimp only
  rw [hnoon, opening_eq h hafter, hday]
  by_cases hworkday : MondayToFriday (moscowDay t + days)
  · rw [if_pos hworkday, if_pos ((isMoscowBusinessDay_iff h hafter).2 (hday.symm ▸ hworkday))]
  · rw [if_neg hworkday, if_neg]
    intro hparts
    exact hworkday (hday ▸ (isMoscowBusinessDay_iff h hafter).1 hparts)

/-- The first of the next days that is a working day. -/
theorem findSome_opening (h : FixedFrom offset since) (ht : since ≤ t) :
    ∃ days, 1 ≤ days ∧ MondayToFriday (moscowDay t + days) ∧
      (∀ n, 1 ≤ n → n < days → ¬ MondayToFriday (moscowDay t + n)) ∧
      [1, 2, 3, 4, 5, 6, 7].findSome? (openingAfter offset (moscowParts offset t)) =
        some (opening (moscowDay t + days)) := by
  have hone := openingAfter_eq h ht (show (1 : ℤ) ≤ 1 by decide)
  have htwo := openingAfter_eq h ht (show (1 : ℤ) ≤ 2 by decide)
  have hthree := openingAfter_eq h ht (show (1 : ℤ) ≤ 3 by decide)
  by_cases h₁ : MondayToFriday (moscowDay t + 1)
  · rw [if_pos h₁] at hone
    exact ⟨1, le_rfl, h₁, fun n hn hlt => absurd hn hlt.not_ge, by rw [List.findSome?_cons, hone]⟩
  rw [if_neg h₁] at hone
  by_cases h₂ : MondayToFriday (moscowDay t + 2)
  · rw [if_pos h₂] at htwo
    refine ⟨2, by decide, h₂, fun n hn hlt => ?_, by rw [List.findSome?_cons, hone, List.findSome?_cons, htwo]⟩
    obtain rfl : n = 1 := by omega
    exact h₁
  rw [if_neg h₂] at htwo
  have h₃ : MondayToFriday (moscowDay t + 3) := by
    unfold MondayToFriday at *
    omega
  rw [if_pos h₃] at hthree
  refine ⟨3, by decide, h₃, fun n hn hlt => ?_, ?_⟩
  · obtain rfl | rfl : n = 1 ∨ n = 2 := by omega
    · exact h₁
    · exact h₂
  · rw [List.findSome?_cons, hone, List.findSome?_cons, htwo, List.findSome?_cons, hthree]

/-- What `nextMoscowBusinessStart` gives: the first working instant that is not before. -/
theorem next_spec (h : FixedFrom offset since) (ht : since ≤ t) :
    IsLeast {u | t ≤ u ∧ Working u} (nextMoscowBusinessStart offset t) := by
  have hsplit : moscowDay t * day + moscowClock t = t + 3 * hour := Int.ediv_mul_add_emod _ _
  have hpos : 0 ≤ moscowClock t := Int.emod_nonneg _ (by decide)
  have hlt : moscowClock t < day := Int.emod_lt_of_pos _ (by decide)
  -- A working instant has the opening of its day behind it.
  have hfirst : ∀ date, (∀ u, t ≤ u → Working u → date ≤ moscowDay u) → MondayToFriday date → t ≤ opening date →
      IsLeast {u | t ≤ u ∧ Working u} (opening date) := by
    intro date hleast hday hle
    refine ⟨⟨hle, working_of_day hday le_rfl (by unfold opening closing hour; omega)⟩, fun u hu => ?_⟩
    have hbehind := (working_iff.1 hu.2).2.1
    have hdate := hleast u hu.1 hu.2
    unfold opening day hour at *
    omega
  have hmono : ∀ u, t ≤ u → moscowDay t ≤ moscowDay u := fun u hu =>
    Int.ediv_le_ediv (by decide) (by omega)
  unfold nextMoscowBusinessStart
  dsimp only
  simp only [Bool.and_eq_true, decide_eq_true_eq, isMoscowBusinessDay_iff h ht, minutes_lt_iff h ht]
  by_cases hearly : MondayToFriday (moscowDay t) ∧ moscowClock t < moscowWorkdayStartHour * hour
  · rw [if_pos hearly, opening_eq h ht]
    refine hfirst _ (fun u hu _ => hmono u hu) hearly.1 ?_
    have hclock := hearly.2
    unfold opening moscowWorkdayStartHour at *
    omega
  rw [if_neg hearly]
  by_cases hinside : MondayToFriday (moscowDay t) ∧ moscowClock t < moscowWorkdayEndHour * hour
  · rw [if_pos hinside]
    refine ⟨⟨le_rfl, hinside.1, ?_, hinside.2⟩, fun u hu => hu.1⟩
    exact not_lt.1 fun hclock => hearly ⟨hinside.1, hclock⟩
  rw [if_neg hinside]
  obtain ⟨days, hdays, hworkday, hbetween, hfound⟩ := findSome_opening h ht
  rw [hfound]
  refine hfirst _ (fun u hu hworking => ?_) hworkday ?_
  · have hle := hmono u hu
    obtain ⟨hday, -, hclose⟩ := working_iff.1 hworking
    by_contra hsooner
    rcases eq_or_lt_of_le hle with heq | hlater
    · have hover : moscowWorkdayEndHour * hour ≤ moscowClock t := not_lt.1 fun hclock => hinside ⟨heq ▸ hday, hclock⟩
      rw [← heq] at hclose
      unfold closing moscowWorkdayEndHour at *
      omega
    · refine hbetween (moscowDay u - moscowDay t) (by omega) (by omega) ?_
      rw [add_sub_cancel]
      exact hday
  · unfold opening day hour at *
    omega

/-- A working instant and the rest of its day. -/
theorem rest_of_day (h : FixedFrom offset since) (ht : since ≤ t) (hworking : Working t) :
    t < dayEnd offset t ∧ (∀ u, t ≤ u → u < dayEnd offset t → Working u) ∧ ¬ Working (dayEnd offset t) := by
  obtain ⟨hday, hopen, hclose⟩ := working_iff.1 hworking
  rw [dayEnd_eq h ht]
  exact ⟨hclose, fun u hu hend => working_of_day hday (hopen.trans hu) hend, not_working_closing _⟩

end Next

/-! ## The two loops -/

section Loops

variable {offset : ℤ → ℤ} {since : ℤ}

/-- Nothing is spent on the way to the next working instant. -/
theorem spent_next (h : FixedFrom offset since) {t finish : ℤ} (ht : since ≤ t)
    (hle : nextMoscowBusinessStart offset t ≤ finish) :
    spent Working t finish = spent Working (nextMoscowBusinessStart offset t) finish := by
  have hnext := next_spec h ht
  have hzero : spent Working t (nextMoscowBusinessStart offset t) = 0 :=
    spent_eq_zero fun u hu hlt hworking => absurd (hnext.2 ⟨hu, hworking⟩) hlt.not_ge
  rw [spent_add Working hnext.1.1 hle, hzero, zero_add]

/-- Nothing is spent in the millisecond of a closing. -/
theorem spent_after {t finish : ℤ} (hidle : ¬ Working t) (hle : t < finish) :
    spent Working t finish = spent Working (t + 1) finish := by
  have hzero : spent Working t (t + 1) = 0 := by
    refine spent_eq_zero fun u hu hlt => ?_
    obtain rfl : u = t := by omega
    exact hidle
  rw [spent_add Working (b := t + 1) (by omega) (by omega), hzero, zero_add]

/-- A pass of the elapsed loop counts the chunk of one day, and the loop counts the rest. -/
theorem elapsedLoop_spec (h : FixedFrom offset since) (finish : ℤ) {fuel : ℕ} {cursor total : ℤ}
    (hcursor : since ≤ cursor) (hfuel : (finish - cursor).toNat < fuel) :
    elapsedLoop offset finish fuel cursor total = some (total + spent Working cursor finish) := by
  induction fuel generalizing cursor total with
  | zero => exact absurd hfuel (Nat.not_lt_zero _)
  | succ fuel ih =>
    unfold elapsedLoop
    by_cases hbefore : cursor < finish
    swap
    · rw [if_neg hbefore, spent_of_le (not_lt.1 hbefore), add_zero]
    rw [if_pos hbefore]
    dsimp only
    obtain ⟨⟨hle, hworking⟩, hleast⟩ := next_spec h hcursor
    set workStart := nextMoscowBusinessStart offset cursor with hstart
    by_cases hover : finish ≤ workStart
    · rw [if_pos hover, spent_eq_zero fun u hu hlt hu' => absurd (hleast ⟨hu, hu'⟩) (hlt.trans_le hover).not_ge,
        add_zero]
    rw [if_neg hover]
    obtain ⟨hend, hrest, hidle⟩ := rest_of_day h (hcursor.trans hle) hworking
    set workEnd := dayEnd offset workStart with hworkEnd
    have hnext : spent Working cursor finish = spent Working workStart finish :=
      spent_next h hcursor (not_le.1 hover).le
    rw [ih (by omega) (by omega), hnext]
    by_cases hmore : workEnd < finish
    · have hchunk : spent Working workStart workEnd = workEnd - workStart := spent_eq_length hend.le hrest
      rw [if_pos hmore, max_eq_right (by omega), spent_add Working hend.le hmore.le, hchunk,
        spent_after hidle hmore]
      exact congrArg some (by omega)
    · have hchunk : spent Working workStart finish = finish - workStart :=
        spent_eq_length (not_le.1 hover).le fun u hu hlt => hrest u hu (hlt.trans_le (not_lt.1 hmore))
      have hnothing : spent Working (workEnd + 1) finish = 0 := spent_of_le (by omega)
      rw [if_neg hmore, max_eq_right (by omega), hchunk, hnothing, add_zero]

/-- The elapsed business time is the working time between the instants. -/
theorem elapsed_yields (h : FixedFrom offset since) {start : ℤ} (hstart : since ≤ start) (finish : ℤ) :
    Yields (moscowBusinessElapsedMs offset start finish) (spent Working start finish) := by
  refine ⟨(finish - start).toNat + 1, fun fuel hfuel => ?_⟩
  unfold moscowBusinessElapsedMs
  by_cases hle : finish ≤ start
  · rw [if_pos hle, spent_of_le hle]
  · rw [if_neg hle, elapsedLoop_spec h finish hstart (by omega), zero_add]

/-- A pass of the adding loop spends the rest of the day, and the loop ends after the last unit of the duration. -/
theorem addLoop_spec (h : FixedFrom offset since) {fuel : ℕ} {cursor remaining : ℤ} (hcursor : since ≤ cursor)
    (hworking : Working cursor) (hpos : 0 < remaining) (hfuel : remaining.toNat < fuel) :
    ∃ t, addLoop offset fuel cursor remaining = some t ∧ cursor < t ∧ Working (t - 1) ∧
      spent Working cursor t = remaining := by
  induction fuel generalizing cursor remaining with
  | zero => exact absurd hfuel (Nat.not_lt_zero _)
  | succ fuel ih =>
    obtain ⟨hend, hrest, hidle⟩ := rest_of_day h hcursor hworking
    unfold addLoop
    rw [if_pos hpos]
    dsimp only
    set dayEnd := dayEnd offset cursor with hdayEnd
    rw [max_eq_right (by omega)]
    by_cases hfits : remaining ≤ dayEnd - cursor
    · rw [if_pos hfits]
      refine ⟨_, rfl, by omega, hrest _ (by omega) (by omega), ?_⟩
      rw [spent_eq_length (by omega) fun u hu hlt => hrest u hu (by omega)]
      omega
    · rw [if_neg hfits]
      obtain ⟨⟨hle, hworking'⟩, -⟩ := next_spec h (t := dayEnd + 1) (by omega)
      obtain ⟨t, hloop, hlt, hlast, hspent⟩ := ih (by omega : since ≤ nextMoscowBusinessStart offset (dayEnd + 1))
        hworking' (show 0 < remaining - (dayEnd - cursor) by omega) (by omega)
      refine ⟨t, hloop, by omega, hlast, ?_⟩
      have hday : spent Working cursor dayEnd = dayEnd - cursor := spent_eq_length hend.le hrest
      rw [spent_add Working hend.le (by omega : dayEnd ≤ t), hday, spent_after hidle (by omega),
        spent_next h (by omega) hlt.le, hspent]
      omega

/-- Adding a positive duration gives the least instant at which it is spent. -/
theorem add_yields (h : FixedFrom offset since) {start : ℤ} (hstart : since ≤ start) {milliseconds : ℤ}
    (hpos : 0 < milliseconds) : ∃ t, Yields (addMoscowBusinessTime offset start milliseconds) t ∧
      IsLeast {u | start ≤ u ∧ spent Working start u = milliseconds} t := by
  obtain ⟨⟨hle, hworking⟩, -⟩ := next_spec h hstart
  have hmax : max 0 milliseconds = milliseconds := max_eq_right hpos.le
  have hloop := fun fuel (hfuel : milliseconds.toNat + 1 ≤ fuel) =>
    addLoop_spec h (hstart.trans hle) hworking hpos (show milliseconds.toNat < fuel by omega)
  obtain ⟨t, ht, hlt, hlast, hspent⟩ := hloop _ le_rfl
  refine ⟨t, ⟨milliseconds.toNat + 1, fun fuel hfuel => ?_⟩, isLeast_spent (by omega) hlast ?_⟩
  · obtain ⟨u, hu, hlt', hlast', hspent'⟩ := hloop fuel hfuel
    unfold addMoscowBusinessTime
    dsimp only
    rw [hmax, if_neg hpos.ne', hu]
    exact congrArg some ((isLeast_spent hlt' hlast' hspent').unique (isLeast_spent hlt hlast hspent))
  · rw [spent_next h hstart hlt.le, hspent]

/-- Without a duration the addition gives the first working instant. -/
theorem add_none (h : FixedFrom offset since) {start : ℤ} (hstart : since ≤ start) {milliseconds : ℤ}
    (hnone : milliseconds ≤ 0) : ∃ t, Yields (addMoscowBusinessTime offset start milliseconds) t ∧
      IsLeast {u | start ≤ u ∧ Working u} t := by
  refine ⟨_, ⟨0, fun fuel _ => ?_⟩, next_spec h hstart⟩
  unfold addMoscowBusinessTime
  dsimp only
  rw [max_eq_left hnone, if_pos rfl]

/-- **Business time.** Where Moscow has its fixed offset, the elapsed business time is additive and is the working
time of the interval; adding a positive duration gives the least instant at which it has elapsed, and adding none the
first working instant. Both loops stop. -/
theorem business_time (h : FixedFrom offset since) {a b c : ℤ} (ha : since ≤ a) (hab : a ≤ b) (hbc : b ≤ c) :
    (∃ total first second, Yields (moscowBusinessElapsedMs offset a c) total ∧
      Yields (moscowBusinessElapsedMs offset a b) first ∧ Yields (moscowBusinessElapsedMs offset b c) second ∧
      total = first + second ∧ total = spent Working a c) ∧
    (∀ finish ≤ a, Yields (moscowBusinessElapsedMs offset a finish) 0) ∧
    (∀ d > 0, ∃ t, Yields (addMoscowBusinessTime offset a d) t ∧
      IsLeast {u | a ≤ u ∧ Yields (moscowBusinessElapsedMs offset a u) d} t) ∧
    ∀ d ≤ 0, ∃ t, Yields (addMoscowBusinessTime offset a d) t ∧ IsLeast {u | a ≤ u ∧ Working u} t := by
  have hiff : ∀ u d, Yields (moscowBusinessElapsedMs offset a u) d ↔ spent Working a u = d := fun u d =>
    (elapsed_yields h ha u).iff_eq
  refine ⟨⟨_, _, _, elapsed_yields h ha c, elapsed_yields h ha b, elapsed_yields h (ha.trans hab) c,
    spent_add Working hab hbc, rfl⟩, fun finish hle => ?_, fun d hd => ?_, fun d hd => add_none h ha hd⟩
  · rw [hiff]
    exact spent_of_le hle
  · simp only [hiff]
    exact add_yields h ha hd

/-- Three hours from UTC at every instant. -/
theorem fixedFrom_firstCentury : FixedFrom (fun _ => 3 * hour) firstCentury :=
  ⟨by decide, fun _ _ => rfl⟩

/-- From Friday, 26 June 2026, 18:50 in Moscow, twenty minutes reach into Monday. -/
theorem business_time_sample : ∃ t, Yields (addMoscowBusinessTime (fun _ => 3 * hour) 1_782_489_000_000 1_200_000) t ∧
    IsLeast {u | 1_782_489_000_000 ≤ u ∧
      Yields (moscowBusinessElapsedMs (fun _ => 3 * hour) 1_782_489_000_000 u) 1_200_000} t :=
  (business_time fixedFrom_firstCentury (a := 1_782_489_000_000) (by decide) le_rfl le_rfl).2.2.1 1_200_000
    (by decide)

/-- The year 50 is taken for 1950: an hour of a working Friday is not counted. -/
theorem business_time_fails : ∃ a c, a ≤ c ∧ Yields (moscowBusinessElapsedMs (fun _ => 3 * hour) a c) 0 ∧
    spent Working a c ≠ 0 := by
  refine ⟨daysFromCivil 50 6 3 * day + 7 * hour, daysFromCivil 50 6 3 * day + 8 * hour, by decide,
    ⟨1, fun fuel hfuel => ?_⟩, ne_of_gt (spent_pos le_rfl (by decide) (by decide))⟩
  obtain ⟨fuel, rfl⟩ := Nat.exists_eq_add_of_le' hfuel
  have hbefore : daysFromCivil 50 6 3 * day + 7 * hour < daysFromCivil 50 6 3 * day + 8 * hour := by decide
  have hfar : daysFromCivil 50 6 3 * day + 8 * hour ≤
      nextMoscowBusinessStart (fun _ => 3 * hour) (daysFromCivil 50 6 3 * day + 7 * hour) := by decide +kernel
  rw [moscowBusinessElapsedMs, if_neg hbefore.not_ge, elapsedLoop, if_pos hbefore]
  dsimp only
  rw [if_pos hfar]

end Loops

end AmoAnalytics.Common
