import AmoAnalytics.Common.BusinessTime

/-!
# Time on weekdays

`moscowWeekdayElapsedMs` of `date.util.ts` goes from midnight to midnight and adds what lies on a Monday to a Friday.
Where Moscow has its fixed offset, it gives the time between two instants that lies on these days.
-/

namespace AmoAnalytics.Common

open CivilDate CountedTime

section Function

variable (offset : ℤ → ℤ)

/-- The midnight after an instant. -/
def nextDay (date : ℤ) : ℤ :=
  let parts := moscowParts offset date
  moscowDate parts.year parts.month (parts.day + 1) 0 0 0 0

/-- The loop of `moscowWeekdayElapsedMs`. -/
def weekdayLoop (finish : ℤ) : ℕ → ℤ → ℤ → Option ℤ
  | 0, _, _ => none
  | fuel + 1, cursor, total =>
    if cursor < finish then
      let chunkEnd := if nextDay offset cursor < finish then nextDay offset cursor else finish
      weekdayLoop finish fuel chunkEnd
        (if isMoscowBusinessDay (moscowParts offset cursor) then total + max 0 (chunkEnd - cursor) else total)
    else some total

def moscowWeekdayElapsedMs (start finish : ℤ) (fuel : ℕ) : Option ℤ :=
  if finish ≤ start then some 0 else weekdayLoop offset finish fuel start 0

end Function

/-- On a Monday to a Friday in Moscow. -/
def Weekday (t : ℤ) : Prop := MondayToFriday (moscowDay t)

instance : DecidablePred Weekday := fun _ => inferInstanceAs (Decidable (MondayToFriday _))

variable {offset : ℤ → ℤ} {since t : ℤ}

theorem nextDay_eq (h : FixedFrom offset since) (ht : since ≤ t) :
    nextDay offset t = (moscowDay t + 1) * day - 3 * hour := by
  have hdate := moscowDate_parts h ht 1 0
  unfold nextDay
  dsimp only
  rw [hdate]
  omega

/-- The rest of the day is all of one kind. -/
theorem spent_rest {finish : ℤ} (hfinish : finish ≤ (moscowDay t + 1) * day - 3 * hour) (hle : t ≤ finish) :
    spent Weekday t finish = if MondayToFriday (moscowDay t) then finish - t else 0 := by
  have hsame : ∀ u, t ≤ u → u < finish → moscowDay u = moscowDay t := by
    intro u htu hu
    unfold moscowDay day hour at *
    omega
  split_ifs with hday
  · refine spent_eq_length hle fun u htu hu => ?_
    unfold Weekday
    rwa [hsame u htu hu]
  · refine spent_eq_zero fun u htu hu => ?_
    unfold Weekday
    rwa [hsame u htu hu]

/-- A pass of the loop adds the rest of its day. -/
theorem weekdayLoop_spec (h : FixedFrom offset since) (finish : ℤ) {fuel : ℕ} {cursor total : ℤ}
    (hcursor : since ≤ cursor) (hfuel : (finish - cursor).toNat < fuel) :
    weekdayLoop offset finish fuel cursor total = some (total + spent Weekday cursor finish) := by
  induction fuel generalizing cursor total with
  | zero => exact absurd hfuel (Nat.not_lt_zero _)
  | succ fuel ih =>
    unfold weekdayLoop
    by_cases hlt : cursor < finish
    · rw [if_pos hlt]
      dsimp only
      have hnext := nextDay_eq h hcursor
      have hafter : cursor < nextDay offset cursor := by
        rw [hnext]
        unfold moscowDay day hour
        omega
      set chunkEnd := if nextDay offset cursor < finish then nextDay offset cursor else finish with hchunk
      have hbounds : cursor < chunkEnd ∧ chunkEnd ≤ finish ∧ chunkEnd ≤ nextDay offset cursor := by
        rw [hchunk]
        split_ifs <;> omega
      rw [ih (by omega) (by omega), max_eq_right (by omega)]
      have hsplit := spent_add Weekday hbounds.1.le hbounds.2.1
      have hrest := spent_rest (hbounds.2.2.trans_eq hnext) hbounds.1.le
      have hday := isMoscowBusinessDay_iff h hcursor
      by_cases hweekday : MondayToFriday (moscowDay cursor)
      · rw [if_pos hweekday] at hrest
        rw [if_pos (hday.2 hweekday)]
        exact congrArg some (by omega)
      · rw [if_neg hweekday] at hrest
        rw [if_neg (fun hbusiness => hweekday (hday.1 hbusiness))]
        exact congrArg some (by omega)
    · rw [if_neg hlt, spent_of_le (not_lt.1 hlt), add_zero]

/-- The elapsed time on weekdays; the loop stops. -/
theorem weekdayElapsed_yields (h : FixedFrom offset since) {start : ℤ} (hstart : since ≤ start) (finish : ℤ) :
    Yields (moscowWeekdayElapsedMs offset start finish) (spent Weekday start finish) := by
  refine ⟨(finish - start).toNat + 1, fun fuel hfuel => ?_⟩
  unfold moscowWeekdayElapsedMs
  by_cases hle : finish ≤ start
  · rw [if_pos hle, spent_of_le hle]
  · rw [if_neg hle, weekdayLoop_spec h finish hstart (by omega), zero_add]

end AmoAnalytics.Common
