import AmoAnalytics.CrmControl.RuleSources
import AmoAnalytics.Lib.CivilCalendar
import AmoAnalytics.Lib.ZoneOffset

/-!
# The calendar of stage deadlines

A time zone is an offset function, and its formatter shows the parts of the local time. From the year 100 on the wall
clock value of the code is that local time; before, `Date.UTC` takes the year for one of the twentieth century.
`instantAtCivilTime` then finds the instant of a local time exactly when there is one, and the deadlines of the
calendar modes are the instants that they name.
-/

namespace AmoAnalytics.CrmControl

open CivilDate ZoneOffset

/-! ## Time zones -/

/-- A time zone: offsets in whole seconds of at most 36 hours, with transitions at least 72 hours apart. -/
structure Zone where
  offset : ℤ → ℤ
  whole : ∀ t, offset t % 1_000 = 0
  bounded : ∀ t, |offset t| ≤ 36 * hour
  apart : Apart offset (72 * hour)

/-- The formatter of an offset function shows the parts of the local time. -/
def zoneFormatter (offset : ℤ → ℤ) : Formatter := fun time => utcFormatter (localTime offset time)

/-- The local date, as a day number. -/
def localDate (offset : ℤ → ℤ) (time : ℤ) : ℤ := localTime offset time / day

/-- The local time of day. -/
def localClock (offset : ℤ → ℤ) (time : ℤ) : ℤ := localTime offset time % day

/-- The wall clock of the code is the local time. -/
theorem civilTime_zone {offset : ℤ → ℤ} {time : ℤ} (hwhole : offset time % 1_000 = 0)
    (h : firstCentury ≤ localTime offset time) : civilTime time (zoneFormatter offset) = localTime offset time := by
  have hyear := utcYear_of_firstCentury_le h
  have hclock : timeOfDay (localTime offset time) / hour * hour + timeOfDay (localTime offset time) / 60_000 % 60 * 60_000 +
      timeOfDay (localTime offset time) / 1_000 % 60 * 1_000 + time % 1_000 = timeOfDay (localTime offset time) := by
    have hms : localTime offset time % 1_000 = time % 1_000 := by
      unfold localTime
      omega
    unfold timeOfDay day hour at *
    omega
  unfold civilTime zoneFormatter utcFormatter
  dsimp only
  rw [add_sub_cancel_right, hclock]
  exact utc_of_parts (by omega)

/-! ## The instant of a local time -/

variable (zone : Zone)

/-- The offset that a probe sees gives the instant of the local time at that offset. -/
theorem candidate_eq {target probe : ℤ} (h : firstCentury + 72 * hour ≤ target) (hprobe : |probe - target| ≤ 36 * hour) :
    target - (civilTime probe (zoneFormatter zone.offset) - probe) = target - zone.offset probe ∧
      civilTime (target - zone.offset probe) (zoneFormatter zone.offset) =
        localTime zone.offset (target - zone.offset probe) := by
  obtain ⟨hlow, hhigh⟩ := abs_le.1 hprobe
  obtain ⟨hoff, hoff'⟩ := abs_le.1 (zone.bounded probe)
  obtain ⟨hshift, hshift'⟩ := abs_le.1 (zone.bounded (target - zone.offset probe))
  constructor
  · rw [civilTime_zone (zone.whole probe) (by unfold localTime; omega)]
    unfold localTime
    omega
  · exact civilTime_zone (zone.whole _) (by unfold localTime; omega)

/-- `instantAtCivilTime` gives the only instant of the local time. -/
theorem instantAtCivilTime_sole {target : ℤ} (h : firstCentury + 72 * hour ≤ target) :
    Sole (fun t => localTime zone.offset t = target) (instantAtCivilTime target (zoneFormatter zone.offset)) := by
  unfold instantAtCivilTime
  refine Sole.of_list fun t => ?_
  have hhour : hour = 3_600_000 := rfl
  simp only [List.mem_filterMap]
  constructor
  · rintro ⟨hours, hmem, hsome⟩
    have hprobe : |target + hours * hour - target| ≤ 36 * hour := by
      rw [add_sub_cancel_left]
      fin_cases hmem <;> decide
    obtain ⟨heq, hcivil⟩ := candidate_eq zone h hprobe
    rw [heq] at hsome
    split_ifs at hsome with htarget
    obtain rfl := Option.some.inj hsome
    rw [← hcivil, htarget]
  · intro ht
    have hfound : ∀ hours : ℤ, hours ∈ [-36, -24, -12, 0, 12, 24, 36] →
        |target + hours * hour - target| ≤ 36 * hour → t = target - zone.offset (target + hours * hour) →
        ∃ hours, hours ∈ [(-36 : ℤ), -24, -12, 0, 12, 24, 36] ∧
          (if civilTime (target - (civilTime (target + hours * hour) (zoneFormatter zone.offset) -
              (target + hours * hour))) (zoneFormatter zone.offset) = target then
            some (target - (civilTime (target + hours * hour) (zoneFormatter zone.offset) - (target + hours * hour)))
            else none) = some t := by
      rintro hours hmem hprobe rfl
      obtain ⟨heq, hcivil⟩ := candidate_eq zone h hprobe
      exact ⟨hours, hmem, by rw [heq, if_pos (hcivil.trans ht)]⟩
    rcases instant_eq_or zone.bounded (show Apart zone.offset (2 * (36 * hour)) from zone.apart) ht with heq | heq
    · refine hfound (-36) (by decide) ?_ ?_
      · rw [add_sub_cancel_left]
        decide
      · rw [heq]
        congr 2
    · refine hfound 36 (by decide) ?_ heq
      rw [add_sub_cancel_left]
      decide

/-! ## Working days -/

theorem isBusinessDay_iff (ms : ℤ) : isBusinessDay ms = true ↔ MondayToFriday (ms / day) := by
  unfold isBusinessDay MondayToFriday utcDay
  rw [decide_eq_true_eq]
  omega

theorem add_day_div (ms n : ℤ) : (ms + n * day) / day = ms / day + n :=
  Int.add_mul_ediv_right ms n (by decide)

theorem add_day_mod (ms n : ℤ) : (ms + n * day) % day = ms % day := Int.add_mul_emod_self_right ms n day

/-- The next business day after the day of `target`, at the same time of day. -/
theorem next_workingDate (target : ℤ) : ∃ n : ℤ, 0 < n ∧ MondayToFriday (target / day + n) ∧
    (∀ x, target / day < x → x < target / day + n → ¬ MondayToFriday x) ∧
    ∀ remaining, addBusinessDays target (remaining + 1) = addBusinessDays (target + n * day) remaining := by
  have hday : ∀ n : ℤ, isBusinessDay (target + n * day) = true ↔ MondayToFriday (target / day + n) := fun n => by
    rw [isBusinessDay_iff, add_day_div]
  have hfirst := hday 1
  have hsecond := hday 2
  rw [one_mul] at hfirst
  by_cases h₁ : isBusinessDay (target + day) = true
  · refine ⟨1, by decide, hfirst.1 h₁, fun x _ _ => by omega, fun remaining => ?_⟩
    rw [addBusinessDays, if_pos h₁, one_mul]
  have hoff := mt hfirst.2 h₁
  by_cases h₂ : isBusinessDay (target + 2 * day) = true
  · refine ⟨2, by decide, hsecond.1 h₂, fun x hx hx' => ?_, fun remaining => ?_⟩
    · rwa [show x = target / day + 1 by omega]
    · rw [addBusinessDays, if_neg h₁, if_pos h₂]
  · have hoff' := mt hsecond.2 h₂
    refine ⟨3, by decide, ?_, fun x hx hx' => ?_, fun remaining => ?_⟩
    · unfold MondayToFriday at hoff hoff' ⊢
      omega
    · rcases (by omega : x = target / day + 1 ∨ x = target / day + 2) with rfl | rfl
      · exact hoff
      · exact hoff'
    · rw [addBusinessDays, if_neg h₁, if_neg h₂]

/-- The business days move the date and keep the time of day. -/
theorem addBusinessDays_spec (d target : ℤ) (passed remaining : ℕ)
    (h : (target / day = d ∧ passed = 0) ∨ NthWorkingDate d passed (target / day)) :
    addBusinessDays target remaining % day = target % day ∧
      ((addBusinessDays target remaining / day = d ∧ passed + remaining = 0) ∨
        NthWorkingDate d (passed + remaining) (addBusinessDays target remaining / day)) := by
  induction remaining generalizing target passed with
  | zero => exact ⟨rfl, h⟩
  | succ remaining ih =>
    obtain ⟨n, hpos, hworking, hbetween, hloop⟩ := next_workingDate target
    have hnext : NthWorkingDate d (passed + 1) ((target + n * day) / day) := by
      rw [add_day_div]
      exact .succ h (by omega) hworking hbetween
    obtain ⟨hclock, hdate⟩ := ih (target + n * day) (passed + 1) (Or.inr hnext)
    rw [hloop, show passed + (remaining + 1) = passed + 1 + remaining by omega]
    exact ⟨hclock.trans (add_day_mod target n), hdate⟩

/-- The target of `n` business days is the local time of day on the `n`-th of them. -/
theorem target_iff {n : ℕ} (hn : 0 < n) (target ms : ℤ) : ms = addBusinessDays target n ↔
    NthWorkingDate (target / day) n (ms / day) ∧ ms % day = target % day := by
  obtain ⟨hclock, hdate⟩ := addBusinessDays_spec (target / day) target 0 n (Or.inl ⟨rfl, rfl⟩)
  rw [zero_add] at hdate
  have hworking := hdate.resolve_left fun h => hn.ne' h.2
  constructor
  · rintro rfl
    exact ⟨hworking, hclock⟩
  · rintro ⟨hnth, hsame⟩
    have hdate := hnth.unique hworking
    rw [← Int.ediv_mul_add_emod ms day, ← Int.ediv_mul_add_emod (addBusinessDays target n) day, hdate, hsame, hclock]

/-! ## Stage deadlines -/

/-- A valid rule of business days has a whole number of them. -/
theorem businessDays_config {rule : StageRule} (h : hasStageDeadline (some rule) = true)
    (hmode : rule.deadlineMode = some .businessDays) : ∃ n : ℕ, 0 < n ∧ rule.maxBusinessDays = some (n : ℚ) := by
  have herror : stageDeadlineConfigError rule = none := by
    have := (Bool.and_eq_true _ _ ▸ h).1
    exact Option.isNone_iff_eq_none.1 this
  unfold stageDeadlineConfigError at herror
  dsimp only at herror
  rw [hmode] at herror
  split_ifs at herror with _ hdays _ _ hmissing
  rcases hn : rule.maxBusinessDays with _ | n
  · exact absurd (by simp [hn]) hmissing
  rw [hn] at hdays
  simp only [Option.any_some, Bool.or_eq_true, Bool.not_eq_true', decide_eq_true_eq, not_or, not_lt] at hdays
  obtain ⟨⟨hinteger, hone⟩, -⟩ := hdays
  have hden : n.den = 1 := of_decide_eq_true ((Bool.not_eq_false _).mp hinteger)
  have hnum : (n.num : ℚ) = n := Rat.coe_int_num_of_den_eq_one hden
  have hpos : 1 ≤ n.num := by exact_mod_cast hnum.symm ▸ hone
  refine ⟨n.num.toNat, by omega, ?_⟩
  have hcast : ((n.num.toNat : ℤ) : ℚ) = (n.num : ℚ) := congrArg Int.cast (Int.toNat_of_nonneg (by omega))
  rw [← hnum, ← hcast]
  rfl

theorem stageDeadline_businessDays {rule : StageRule} (h : hasStageDeadline (some rule) = true)
    (hmode : rule.deadlineMode = some .businessDays) {n : ℕ} (hn : rule.maxBusinessDays = some (n : ℚ)) (entry : ℤ)
    (formatter : Formatter) : (stageDeadline (some rule) (some entry) formatter).deadline =
      instantAtCivilTime (addBusinessDays (civilTime entry formatter) n) formatter := by
  unfold stageDeadline
  simp only [Option.bind_some, hmode, Option.getD_some, h, hn]
  rcases hinstant : instantAtCivilTime (addBusinessDays (civilTime entry formatter) n) formatter with _ | deadline
  · simp [hinstant]
  · simp [hinstant]

theorem stageDeadline_endOfDay {rule : StageRule} (h : hasStageDeadline (some rule) = true)
    (hmode : rule.deadlineMode = some .endOfDay) (entry : ℤ) (formatter : Formatter) :
    (stageDeadline (some rule) (some entry) formatter).deadline =
      instantAtCivilTime (civilTime entry formatter / day * day + 19 * hour) formatter := by
  unfold stageDeadline
  simp only [Option.bind_some, hmode, Option.getD_some, h]
  rcases hinstant : instantAtCivilTime (civilTime entry formatter / day * day + 19 * hour) formatter
    with _ | deadline
  · simp [hinstant]
  · simp [hinstant]

theorem businessDays_sole {rule : StageRule} (h : hasStageDeadline (some rule) = true)
    (hmode : rule.deadlineMode = some .businessDays) {entry : ℤ}
    (hentry : firstCentury + 96 * hour ≤ localTime zone.offset entry) :
    ∃ n : ℕ, rule.maxBusinessDays = some (n : ℚ) ∧ Sole
      (fun t => NthWorkingDate (localDate zone.offset entry) n (localDate zone.offset t) ∧
        localClock zone.offset t = localClock zone.offset entry)
      (stageDeadline (some rule) (some entry) (zoneFormatter zone.offset)).deadline := by
  obtain ⟨n, hpos, hn⟩ := businessDays_config h hmode
  have hhour : hour = 3_600_000 := rfl
  have hcivil : civilTime entry (zoneFormatter zone.offset) = localTime zone.offset entry :=
    civilTime_zone (zone.whole entry) (by omega)
  have htarget := (target_iff hpos (localTime zone.offset entry) _).1 rfl
  have hlate : firstCentury + 72 * hour ≤ addBusinessDays (localTime zone.offset entry) n := by
    have hafter := htarget.1.1
    unfold day at *
    omega
  refine ⟨n, hn, ?_⟩
  rw [stageDeadline_businessDays h hmode hn, hcivil]
  exact (instantAtCivilTime_sole zone hlate).congr fun t => target_iff hpos _ _

theorem endOfDay_sole {rule : StageRule} (h : hasStageDeadline (some rule) = true)
    (hmode : rule.deadlineMode = some .endOfDay) {entry : ℤ}
    (hentry : firstCentury + 96 * hour ≤ localTime zone.offset entry) :
    Sole (fun t => localDate zone.offset t = localDate zone.offset entry ∧ localClock zone.offset t = 19 * hour)
      (stageDeadline (some rule) (some entry) (zoneFormatter zone.offset)).deadline := by
  have hhour : hour = 3_600_000 := rfl
  have hcivil : civilTime entry (zoneFormatter zone.offset) = localTime zone.offset entry :=
    civilTime_zone (zone.whole entry) (by omega)
  have hlate : firstCentury + 72 * hour ≤ localTime zone.offset entry / day * day + 19 * hour := by
    unfold day
    omega
  rw [stageDeadline_endOfDay h hmode, hcivil]
  refine (instantAtCivilTime_sole zone hlate).congr fun t => ?_
  unfold localDate localClock day
  omega

/-- **Deadline calendar.** From the year 100 on, in every zone whose offsets are at most 36 hours and change at most
every 72 hours, the instant of a local time is found exactly when there is one, and the deadline of a calendar mode
is the only instant at its local date and time of day. -/
theorem deadline_calendar :
    (∀ target, firstCentury + 72 * hour ≤ target → Sole (fun t => localTime zone.offset t = target)
      (instantAtCivilTime target (zoneFormatter zone.offset))) ∧
    ∀ (rule : StageRule) (entry : ℤ), hasStageDeadline (some rule) = true →
      firstCentury + 96 * hour ≤ localTime zone.offset entry →
      (rule.deadlineMode = some .businessDays → ∃ n : ℕ, rule.maxBusinessDays = some (n : ℚ) ∧ Sole
        (fun t => NthWorkingDate (localDate zone.offset entry) n (localDate zone.offset t) ∧
          localClock zone.offset t = localClock zone.offset entry)
        (stageDeadline (some rule) (some entry) (zoneFormatter zone.offset)).deadline) ∧
      (rule.deadlineMode = some .endOfDay → Sole
        (fun t => localDate zone.offset t = localDate zone.offset entry ∧ localClock zone.offset t = 19 * hour)
        (stageDeadline (some rule) (some entry) (zoneFormatter zone.offset)).deadline) :=
  ⟨fun _ h => instantAtCivilTime_sole zone h, fun _ _ h hentry =>
    ⟨fun hmode => businessDays_sole zone h hmode hentry, fun hmode => endOfDay_sole zone h hmode hentry⟩⟩

section Sample

/-- Berlin around the end of the summer time of 2026. -/
def berlinZone : Zone where
  offset := oneTransition 1_792_890_000_000 (2 * hour) hour
  whole time := by
    unfold oneTransition
    split_ifs <;> decide
  bounded time := by
    unfold oneTransition
    split_ifs <;> decide
  apart := apart_oneTransition _ _ _ _

/-- One business day from Friday, 23 October 2026, 10:15 in Berlin. -/
theorem deadline_calendar_sample : ∃ n : ℕ, (some 1 : Option ℚ) = some (n : ℚ) ∧ Sole
    (fun t => NthWorkingDate (localDate berlinZone.offset 1_792_743_300_000) n (localDate berlinZone.offset t) ∧
      localClock berlinZone.offset t = localClock berlinZone.offset 1_792_743_300_000)
    (stageDeadline (some { deadlineMode := some .businessDays, maxBusinessDays := some 1 })
      (some 1_792_743_300_000) (zoneFormatter berlinZone.offset)).deadline :=
  ((deadline_calendar berlinZone).2 { deadlineMode := some .businessDays, maxBusinessDays := some 1 }
    1_792_743_300_000 (by decide +kernel) (by decide +kernel)).1 rfl

/-- Offsets of more than four days, with one transition. -/
def farOffset : ℤ → ℤ := oneTransition 1_792_890_000_000 (100 * hour) (101 * hour)

/-- 19:00 of the first day of June in the year 50 is taken for the year 1950, and a local time at an offset of 100
hours is not found though it has one instant. -/
theorem deadline_calendar_fails :
    ¬ Sole (fun t => localDate (fun _ => 0) t = localDate (fun _ => 0) (daysFromCivil 50 6 1 * day) ∧
        localClock (fun _ => 0) t = 19 * hour)
      (stageDeadline (some { deadlineMode := some .endOfDay }) (some (daysFromCivil 50 6 1 * day))
        (zoneFormatter fun _ => 0)).deadline ∧
    Apart farOffset (72 * hour) ∧ ¬ Sole (fun t => localTime farOffset t = 1_792_890_000_000 + 98 * hour)
      (instantAtCivilTime (1_792_890_000_000 + 98 * hour) (zoneFormatter farOffset)) := by
  refine ⟨fun hsole => ?_, apart_oneTransition _ _ _ _, fun hsole => ?_⟩
  · have hdeadline : (stageDeadline (some { deadlineMode := some .endOfDay }) (some (daysFromCivil 50 6 1 * day))
        (zoneFormatter fun _ => 0)).deadline = some (daysFromCivil 1950 6 1 * day + 19 * hour) := by
      decide +kernel
    have hwrong := ((hsole.some_iff _).1 hdeadline).1.1
    exact absurd hwrong (by decide +kernel)
  · have hnone : instantAtCivilTime (1_792_890_000_000 + 98 * hour) (zoneFormatter farOffset) = none := by
      decide +kernel
    refine hsole.none_iff.1 hnone ⟨1_792_890_000_000 - 2 * hour, by decide +kernel, fun t ht => ?_⟩
    unfold localTime farOffset oneTransition hour at ht
    unfold hour
    dsimp only at ht
    split_ifs at ht <;> omega

end Sample

end AmoAnalytics.CrmControl
