import AmoAnalytics.Lib.CivilDate

/-!
# The civil calendar as an inverse, and its working days

The date that `civilFromDays` gives for a day number is the date of that day number, so a time value is recovered
from its year, month, date and time of day (`utc_of_parts`), except in the years that `utc` reads as the twentieth
century. `NthWorkingDate d n e` says that `e` is the `n`-th day from Monday to Friday after the day `d`.
-/

namespace AmoAnalytics.CivilDate

/-! ## Years of an era -/

/-- The day of the era, corrected so that every year of it has 365 days. -/
def evenDay (d : ℤ) : ℤ := d - d / 1_460 + d / 36_524 - d / 146_096

/-- The day of the era on which its `y`-th year begins. -/
def yearStart (y : ℤ) : ℤ := 365 * y + y / 4 - y / 100

theorem evenDay_mono {a b : ℤ} (hab : a ≤ b) : evenDay a ≤ evenDay b := by
  unfold evenDay
  omega

theorem evenDay_bounds {d : ℤ} (h₀ : 0 ≤ d) (h₁ : d < 146_097) : 0 ≤ evenDay d / 365 ∧ evenDay d / 365 ≤ 399 := by
  unfold evenDay
  rcases eq_or_lt_of_le (show d ≤ 146_096 by omega) with rfl | h
  · decide
  · omega

/-- The first day of a year belongs to it, and the day before to an earlier one. -/
theorem evenDay_yearStart {y : ℤ} (h₀ : 0 ≤ y) (h₁ : y ≤ 399) :
    365 * y ≤ evenDay (yearStart y) ∧ (0 < y → evenDay (yearStart y - 1) < 365 * y) := by
  have hcentury : yearStart y / 36_524 = y / 100 := by
    unfold yearStart
    omega
  have hfour : yearStart y / 1_460 = y / 4 := by
    unfold yearStart
    omega
  have hera : yearStart y / 146_096 = 0 := by
    unfold yearStart
    omega
  have hsame : evenDay (yearStart y) = 365 * y := by
    unfold evenDay
    rw [hcentury, hfour, hera]
    unfold yearStart
    omega
  refine ⟨hsame.ge, fun hpos => ?_⟩
  have hcentury' : (yearStart y - 1) / 36_524 ≤ y / 100 := by omega
  have hfour' : y / 4 ≤ (yearStart y - 1) / 1_460 := by
    unfold yearStart
    omega
  have hera' : 0 ≤ (yearStart y - 1) / 146_096 := by
    unfold yearStart
    omega
  have hstart : yearStart y = 365 * y + y / 4 - y / 100 := rfl
  unfold evenDay
  omega

/-- The day of the year that `civilFromDays` computes. -/
theorem dayOfYear_bounds {d : ℤ} (h₀ : 0 ≤ d) (h₁ : d < 146_097) :
    0 ≤ d - yearStart (evenDay d / 365) ∧ d - yearStart (evenDay d / 365) ≤ 366 := by
  obtain ⟨hy₀, hy₁⟩ := evenDay_bounds h₀ h₁
  generalize hy : evenDay d / 365 = y at hy₀ hy₁ ⊢
  have hd : 365 * y ≤ evenDay d ∧ evenDay d < 365 * (y + 1) := by omega
  constructor
  · by_contra hbefore
    have hpos : 0 < y := by
      rcases eq_or_lt_of_le hy₀ with rfl | hpos
      · exact absurd (show 0 ≤ d - yearStart 0 by simpa [yearStart] using h₀) hbefore
      · exact hpos
    have hlt := (evenDay_yearStart hy₀ hy₁).2 hpos
    have hle := evenDay_mono (show d ≤ yearStart y - 1 by omega)
    omega
  · by_contra hafter
    rcases eq_or_lt_of_le hy₁ with rfl | hlt
    · have : yearStart 399 = 145_731 := rfl
      omega
    · have hnext := (evenDay_yearStart (y := y + 1) (by omega) (by omega)).1
      have hle : evenDay (yearStart (y + 1)) ≤ evenDay d := evenDay_mono (by unfold yearStart at hafter ⊢; omega)
      omega

/-- The days of a year of the era are before the next one. -/
theorem day_lt_nextYear {d : ℤ} (h₀ : 0 ≤ d) (h₁ : d < 146_097) :
    d < if evenDay d / 365 = 399 then 146_097 else yearStart (evenDay d / 365 + 1) := by
  obtain ⟨hy₀, hy₁⟩ := evenDay_bounds h₀ h₁
  split_ifs with hlast
  · exact h₁
  · by_contra hafter
    have hnext := (evenDay_yearStart (y := evenDay d / 365 + 1) (by omega) (by omega)).1
    have hle : evenDay (yearStart (evenDay d / 365 + 1)) ≤ evenDay d := evenDay_mono (not_lt.1 hafter)
    omega

/-! ## Round trip -/

/-- The date of a day number, with the year of its era and the day of that year named. -/
theorem civilFromDays_parts (days : ℤ) : ∃ era year dayOfYear mp, (0 ≤ year ∧ year ≤ 399) ∧
    (0 ≤ dayOfYear ∧ dayOfYear ≤ 366) ∧ mp = (5 * dayOfYear + 2) / 153 ∧
    (yearStart year + dayOfYear < if year = 399 then 146_097 else yearStart (year + 1)) ∧
    days + 719_468 = era * 146_097 + yearStart year + dayOfYear ∧
    civilFromDays days = (if mp < 10 then year + era * 400 else year + era * 400 + 1,
      if mp < 10 then mp + 3 else mp - 9, dayOfYear - (153 * mp + 2) / 5 + 1) := by
  have hd₀ : 0 ≤ days + 719_468 - (days + 719_468) / 146_097 * 146_097 := by omega
  have hd₁ : days + 719_468 - (days + 719_468) / 146_097 * 146_097 < 146_097 := by omega
  obtain ⟨hy₀, hy₁⟩ := evenDay_bounds hd₀ hd₁
  obtain ⟨hday₀, hday₁⟩ := dayOfYear_bounds hd₀ hd₁
  have hnext := day_lt_nextYear hd₀ hd₁
  generalize hera : (days + 719_468) / 146_097 = era at *
  generalize hdayOfEra : days + 719_468 - era * 146_097 = dayOfEra at *
  generalize hyear : evenDay dayOfEra / 365 = year at *
  generalize hmonth : (5 * (dayOfEra - yearStart year) + 2) / 153 = mp
  refine ⟨era, year, dayOfEra - yearStart year, mp, ⟨hy₀, hy₁⟩, ⟨hday₀, hday₁⟩, hmonth.symm, ?_, by omega, ?_⟩
  · rwa [add_sub_cancel]
  have hdate : civilFromDays days = (if (if mp < 10 then mp + 3 else mp - 9) ≤ 2 then year + era * 400 + 1
      else year + era * 400, if mp < 10 then mp + 3 else mp - 9,
      dayOfEra - yearStart year - (153 * mp + 2) / 5 + 1) := by
    subst hera hdayOfEra hyear hmonth
    rfl
  rw [hdate]
  split_ifs
  all_goals first | rfl | omega

/-- The same without the end of the year. -/
theorem civilFromDays_eq (days : ℤ) : ∃ era year dayOfYear mp, (0 ≤ year ∧ year ≤ 399) ∧
    (0 ≤ dayOfYear ∧ dayOfYear ≤ 366) ∧ mp = (5 * dayOfYear + 2) / 153 ∧
    days + 719_468 = era * 146_097 + yearStart year + dayOfYear ∧
    civilFromDays days = (if mp < 10 then year + era * 400 else year + era * 400 + 1,
      if mp < 10 then mp + 3 else mp - 9, dayOfYear - (153 * mp + 2) / 5 + 1) := by
  obtain ⟨era, year, dayOfYear, mp, hyear, hday, hmp, -, hdays, hdate⟩ := civilFromDays_parts days
  exact ⟨era, year, dayOfYear, mp, hyear, hday, hmp, hdays, hdate⟩

/-- The day number of a date, from the year of its era and its month counted from March. -/
theorem daysFromCivil_eq {era year mp dayOfMonth : ℤ} (hy₀ : 0 ≤ year) (hy₁ : year ≤ 399) (hmp₀ : 0 ≤ mp)
    (hmp₁ : mp ≤ 11) : daysFromCivil (if mp < 10 then year + era * 400 else year + era * 400 + 1)
      (if mp < 10 then mp + 3 else mp - 9) dayOfMonth =
        era * 146_097 + yearStart year + (153 * mp + 2) / 5 + dayOfMonth - 1 - 719_468 := by
  have hera : (year + era * 400) / 400 = era := by omega
  have hyear : year + era * 400 - era * 400 = year := by omega
  unfold daysFromCivil yearStart
  by_cases hmp : mp < 10
  · have hlate : ¬ mp + 3 ≤ 2 := by omega
    have hspring : mp + 3 > 2 := by omega
    simp only [if_pos hmp, if_neg hlate, if_pos hspring, hera, hyear, add_sub_cancel_right]
    omega
  · have hearly : mp - 9 ≤ 2 := by omega
    have hwinter : ¬ mp - 9 > 2 := by omega
    simp only [if_neg hmp, if_pos hearly, if_neg hwinter, add_sub_cancel_right, hera, hyear, sub_add_cancel]
    omega

/-- The date of a day number has that day number. -/
theorem daysFromCivil_civilFromDays (days : ℤ) :
    daysFromCivil (civilFromDays days).1 (civilFromDays days).2.1 (civilFromDays days).2.2 = days := by
  obtain ⟨era, year, dayOfYear, mp, ⟨hy₀, hy₁⟩, ⟨hday₀, hday₁⟩, hmp, hdays, hdate⟩ := civilFromDays_eq days
  rw [hdate, daysFromCivil_eq hy₀ hy₁ (by omega) (by omega)]
  dsimp only
  omega

theorem civilFromDays_month (days : ℤ) : 1 ≤ (civilFromDays days).2.1 ∧ (civilFromDays days).2.1 ≤ 12 := by
  obtain ⟨era, year, dayOfYear, mp, -, ⟨hday₀, hday₁⟩, hmp, -, hdate⟩ := civilFromDays_eq days
  rw [hdate]
  dsimp only
  split_ifs <;> omega

theorem daysFromCivil_dayOfMonth (year month dayOfMonth : ℤ) :
    daysFromCivil year month 1 + dayOfMonth - 1 = daysFromCivil year month dayOfMonth := by
  unfold daysFromCivil
  dsimp only
  omega

/-- A time value is its year, month, date and time of day, unless its year is read as the twentieth century. -/
theorem utc_of_parts {ms : ℤ} (h : ¬ (0 ≤ utcYear ms ∧ utcYear ms ≤ 99)) :
    utc (utcYear ms) (utcMonth ms) (utcDate ms) (timeOfDay ms) = ms := by
  obtain ⟨hmonth₀, hmonth₁⟩ := civilFromDays_month (ms / day)
  have hcarry : utcMonth ms / 12 = 0 := by
    unfold utcMonth
    omega
  have hmonth : utcMonth ms % 12 + 1 = (civilFromDays (ms / day)).2.1 := by
    unfold utcMonth
    omega
  unfold utc
  dsimp only
  rw [if_neg h, hcarry, hmonth, add_zero, daysFromCivil_dayOfMonth]
  show daysFromCivil (civilFromDays (ms / day)).1 _ (civilFromDays (ms / day)).2.2 * day + ms % day = ms
  rw [daysFromCivil_civilFromDays]
  exact Int.ediv_mul_add_emod ms day

/-- The first millisecond of the year 100. -/
def firstCentury : ℤ := utc 100 0 1 0

theorem utcYear_of_firstCentury_le {ms : ℤ} (h : firstCentury ≤ ms) : 100 ≤ utcYear ms := by
  have hdays : -683_003 ≤ ms / day := by
    have hfirst : firstCentury = -683_003 * day := by decide
    unfold day at *
    omega
  obtain ⟨era, year, dayOfYear, mp, ⟨hy₀, hy₁⟩, ⟨hday₀, hday₁⟩, hmp, heq, hdate⟩ := civilFromDays_eq (ms / day)
  have hstart : yearStart year = 365 * year + year / 4 - year / 100 := rfl
  unfold utcYear
  rw [hdate]
  dsimp only
  split_ifs <;> omega

/-! ## Working days -/

/-- A day number from Monday to Friday; day 0 was a Thursday. -/
def MondayToFriday (date : ℤ) : Prop := 1 ≤ (date + 4) % 7 ∧ (date + 4) % 7 ≤ 5

instance : DecidablePred MondayToFriday := fun _ => inferInstanceAs (Decidable (_ ∧ _))

/-- The `n`-th day from Monday to Friday strictly after the day `d`. -/
def NthWorkingDate (d : ℤ) (n : ℕ) (e : ℤ) : Prop :=
  d < e ∧ MondayToFriday e ∧ ((Finset.Ioc d e).filter MondayToFriday).card = n

/-- There is only one. -/
theorem NthWorkingDate.unique {d e e' : ℤ} {n : ℕ} (h : NthWorkingDate d n e) (h' : NthWorkingDate d n e') :
    e = e' := by
  have hle : ∀ {e e' : ℤ}, NthWorkingDate d n e → NthWorkingDate d n e' → e' ≤ e := by
    rintro e e' ⟨-, -, hcard⟩ ⟨hafter', hworking', hcard'⟩
    by_contra hlt
    have hsub : (Finset.Ioc d e).filter MondayToFriday ⊂ (Finset.Ioc d e').filter MondayToFriday := by
      refine Finset.ssubset_iff_of_subset (Finset.filter_subset_filter _
        (Finset.Ioc_subset_Ioc_right (not_le.1 hlt).le)) |>.2 ⟨e', ?_, ?_⟩
      · exact Finset.mem_filter.2 ⟨Finset.mem_Ioc.2 ⟨hafter', le_rfl⟩, hworking'⟩
      · intro hmem
        exact hlt (Finset.mem_Ioc.1 (Finset.mem_filter.1 hmem).1).2
    exact absurd (Finset.card_lt_card hsub) (by omega)
  exact le_antisymm (hle h' h) (hle h h')

/-- The working day after the `n`-th, with none between, is the next one. -/
theorem NthWorkingDate.succ {d e f : ℤ} {n : ℕ} (h : (e = d ∧ n = 0) ∨ NthWorkingDate d n e) (hlt : e < f)
    (hworking : MondayToFriday f) (hbetween : ∀ x, e < x → x < f → ¬ MondayToFriday x) :
    NthWorkingDate d (n + 1) f := by
  have hle : d ≤ e := h.elim (fun h => h.1.ge) fun h => h.1.le
  have hcard : ((Finset.Ioc d e).filter MondayToFriday).card = n := by
    rcases h with ⟨rfl, rfl⟩ | h
    · rw [Finset.Ioc_self]
      rfl
    · exact h.2.2
  have hsplit : (Finset.Ioc d f).filter MondayToFriday =
      insert f ((Finset.Ioc d e).filter MondayToFriday) := by
    ext x
    rw [Finset.mem_insert, Finset.mem_filter, Finset.mem_filter, Finset.mem_Ioc, Finset.mem_Ioc]
    constructor
    · rintro ⟨⟨hafter, hbefore⟩, hx⟩
      rcases eq_or_lt_of_le hbefore with rfl | hbefore
      · exact Or.inl rfl
      · exact Or.inr ⟨⟨hafter, not_lt.1 fun hex => hbetween x hex hbefore hx⟩, hx⟩
    · rintro (rfl | ⟨⟨hafter, hbefore⟩, hx⟩)
      · exact ⟨⟨hle.trans_lt hlt, le_rfl⟩, hworking⟩
      · exact ⟨⟨hafter, hbefore.trans hlt.le⟩, hx⟩
  have hnew : f ∉ (Finset.Ioc d e).filter MondayToFriday := fun hmem =>
    absurd (Finset.mem_Ioc.1 (Finset.mem_filter.1 hmem).1).2 (not_le.2 hlt)
  exact ⟨hle.trans_lt hlt, hworking, by rw [hsplit, Finset.card_insert_of_notMem hnew, hcard]⟩

/-! ## Months

A month is numbered by `12 * year + month - 1`. The months follow each other, from 28 to 31 days long, and the month of
a date is the one whose days contain it. -/

/-- The day number of the first day of a month. -/
def monthFirst (n : ℤ) : ℤ := daysFromCivil (n / 12) (n % 12 + 1) 1

/-- The number of the month of a day. -/
def monthOf (days : ℤ) : ℤ := 12 * (civilFromDays days).1 + (civilFromDays days).2.1 - 1

/-- The first day of a month counted from March of the year of an era. -/
theorem monthFirst_eq {era year mp : ℤ} (hy₀ : 0 ≤ year) (hy₁ : year ≤ 399) (hmp₀ : 0 ≤ mp) (hmp₁ : mp ≤ 11) :
    monthFirst (12 * (year + era * 400) + mp + 2) =
      era * 146_097 + yearStart year + (153 * mp + 2) / 5 - 719_468 := by
  have hday := @daysFromCivil_eq era year mp 1 hy₀ hy₁ hmp₀ hmp₁
  have hyear : (12 * (year + era * 400) + mp + 2) / 12 =
      if mp < 10 then year + era * 400 else year + era * 400 + 1 := by
    split_ifs <;> omega
  have hmonth : (12 * (year + era * 400) + mp + 2) % 12 + 1 = if mp < 10 then mp + 3 else mp - 9 := by
    split_ifs <;> omega
  rw [monthFirst, hyear, hmonth, hday]
  omega

/-- Every month is a month of the year of an era. -/
theorem month_parts (n : ℤ) : ∃ era year mp, (0 ≤ year ∧ year ≤ 399) ∧ (0 ≤ mp ∧ mp ≤ 11) ∧
    n = 12 * (year + era * 400) + mp + 2 :=
  ⟨(n - 2) / 12 / 400, (n - 2) / 12 % 400, (n - 2) % 12, by omega, by omega, by omega⟩

/-- The first day after a month, in the same terms: February ends with the year. -/
theorem monthFirst_succ_eq {era year mp : ℤ} (hy₀ : 0 ≤ year) (hy₁ : year ≤ 399) (hmp₀ : 0 ≤ mp) (hmp₁ : mp ≤ 11) :
    monthFirst (12 * (year + era * 400) + mp + 2 + 1) = era * 146_097 - 719_468 +
      (if mp = 11 then (if year = 399 then 146_097 else yearStart (year + 1))
        else yearStart year + (153 * (mp + 1) + 2) / 5) := by
  split_ifs with hfebruary hlast
  · have h := @monthFirst_eq (era + 1) 0 0 le_rfl (by decide) le_rfl (by decide)
    have hzero : yearStart 0 = 0 := rfl
    rw [show 12 * (year + era * 400) + mp + 2 + 1 = 12 * (0 + (era + 1) * 400) + 0 + 2 by omega, h]
    omega
  · have h := @monthFirst_eq era (year + 1) 0 (by omega) (by omega) le_rfl (by decide)
    rw [show 12 * (year + era * 400) + mp + 2 + 1 = 12 * (year + 1 + era * 400) + 0 + 2 by omega, h]
    omega
  · have h := @monthFirst_eq era year (mp + 1) hy₀ hy₁ (by omega) (by omega)
    rw [show 12 * (year + era * 400) + mp + 2 + 1 = 12 * (year + era * 400) + (mp + 1) + 2 by omega, h]
    omega

/-- A month has at least 28 days. -/
theorem monthFirst_add_le (n : ℤ) : monthFirst n + 28 ≤ monthFirst (n + 1) := by
  obtain ⟨era, year, mp, ⟨hy₀, hy₁⟩, ⟨hmp₀, hmp₁⟩, rfl⟩ := month_parts n
  rw [monthFirst_eq hy₀ hy₁ hmp₀ hmp₁, monthFirst_succ_eq hy₀ hy₁ hmp₀ hmp₁]
  unfold yearStart
  split_ifs <;> omega

theorem monthFirst_lt_succ (n : ℤ) : monthFirst n < monthFirst (n + 1) := by
  have := monthFirst_add_le n
  omega

theorem strictMono_monthFirst : StrictMono monthFirst := strictMono_int_of_lt_succ monthFirst_lt_succ

/-- A day lies in its month. -/
theorem monthFirst_monthOf (days : ℤ) : monthFirst (monthOf days) ≤ days ∧ days < monthFirst (monthOf days + 1) := by
  obtain ⟨era, year, dayOfYear, mp, ⟨hy₀, hy₁⟩, ⟨hday₀, hday₁⟩, hmp, hnext, hdays, hdate⟩ := civilFromDays_parts days
  have hmp₁ : mp ≤ 11 := by omega
  have hmonth : monthOf days = 12 * (year + era * 400) + mp + 2 := by
    rw [monthOf, hdate]
    dsimp only
    split_ifs <;> omega
  rw [hmonth, monthFirst_eq hy₀ hy₁ (by omega) hmp₁, monthFirst_succ_eq hy₀ hy₁ (by omega) hmp₁]
  constructor
  · omega
  · split_ifs at hnext ⊢ <;> omega

/-- The days of a month are those of its number. -/
theorem monthOf_eq_iff {days n : ℤ} : monthOf days = n ↔ monthFirst n ≤ days ∧ days < monthFirst (n + 1) := by
  obtain ⟨hfirst, hnext⟩ := monthFirst_monthOf days
  constructor
  · rintro rfl
    exact ⟨hfirst, hnext⟩
  · rintro ⟨hle, hlt⟩
    have h₁ : monthOf days < n + 1 := strictMono_monthFirst.lt_iff_lt.1 (hfirst.trans_lt hlt)
    have h₂ : n < monthOf days + 1 := strictMono_monthFirst.lt_iff_lt.1 (hle.trans_lt hnext)
    omega

end AmoAnalytics.CivilDate
