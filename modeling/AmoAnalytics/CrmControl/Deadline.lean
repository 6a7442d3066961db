import AmoAnalytics.Lib.CivilDate
import AmoAnalytics.CrmControl.Types

/-!
# Stage deadlines

`crm-control-deadline.ts`. The time zone data base belongs to the runtime: a `Formatter` gives the
wall-clock parts of an instant, and everything else is computed from it.
-/

namespace AmoAnalytics.CrmControl

open CivilDate

/-- The parts of `formatToParts`. -/
structure CivilParts where
  year : ℤ
  month : ℤ
  day : ℤ
  hour : ℤ
  minute : ℤ
  second : ℤ

/-- A formatter of one time zone. -/
abbrev Formatter := ℤ → CivilParts

structure StageDeadline where
  mode : DeadlineMode
  deadline : Option ℤ
  reason : Option String := none

/-- The largest time value of a `Date`. -/
def maxTime : ℤ := 8_640_000_000_000_000

/-- `new Date(ms)` with its time value, when that is finite. -/
def timeClip (ms : ℚ) : Option ℤ :=
  let whole := if ms < 0 then ⌈ms⌉ else ⌊ms⌋
  if |ms| ≤ maxTime then some whole else none

def isInteger (value : ℚ) : Bool := value.den = 1

/-- The configured mode is complete and carries no limit of another mode. -/
def stageDeadlineConfigError (rule : StageRule) : Option String :=
  let hours := rule.maxDurationHours
  let days := rule.maxBusinessDays
  let mode := rule.deadlineMode
  if hours.any fun h => h ≤ 0 ∨ 87_600 < h then
    some "Срок этапа в часах должен быть больше нуля и не больше 87600"
  else if days.any fun d => !isInteger d || d < 1 || 3_650 < d then
    some "Срок этапа в рабочих днях должен быть целым числом от 1 до 3650"
  else if (mode = none ∨ mode = some .elapsed) ∧ days.isSome then
    some "Рабочие дни допустимы только в режиме «Рабочие дни»"
  else if mode = some .elapsed ∧ hours.isNone then
    some "Укажите срок этапа в часах"
  else if mode = some .businessDays ∧ (days.isNone ∨ hours.isSome) then
    some "Для рабочих дней укажите число дней и уберите срок в часах"
  else if (mode = some .endOfDay ∨ mode = some .unlimited) ∧ (hours.isSome ∨ days.isSome) then
    some "Для выбранного режима числовой срок не требуется"
  else none

def hasStageDeadline (rule : Option StageRule) : Bool :=
  rule.any fun rule => (stageDeadlineConfigError rule).isNone &&
    (rule.deadlineMode.isSome || rule.maxDurationHours.isSome)

/-- A wall-clock value for calendar arithmetic, never an actual UTC instant. -/
def civilTime (date : ℤ) (formatter : Formatter) : ℤ :=
  let parts := formatter date
  utc parts.year (parts.month - 1) parts.day
    (parts.hour * hour + parts.minute * 60_000 + parts.second * 1_000 + date % 1_000)

/-- The instant of a local time, when exactly one of the offsets around it gives that time back. -/
def instantAtCivilTime (target : ℤ) (formatter : Formatter) : Option ℤ :=
  let candidates := [-36, -24, -12, 0, 12, 24, 36].filterMap fun hours =>
    let probe := target + hours * hour
    let instant := target - (civilTime probe formatter - probe)
    if civilTime instant formatter = target then some instant else none
  match candidates.dedup with
  | [instant] => some instant
  | _ => none

/-- Move `remaining` business days forward: every business day reached counts once. A weekend lasts
two days, so three steps are always enough for the next business day. -/
def addBusinessDays (target : ℤ) : ℕ → ℤ
  | 0 => target
  | remaining + 1 =>
    let next :=
      if isBusinessDay (target + day) then target + day
      else if isBusinessDay (target + 2 * day) then target + 2 * day
      else target + 3 * day
    addBusinessDays next remaining

def stageDeadline (rule : Option StageRule) (entry : Option ℤ) (formatter : Formatter) :
    StageDeadline :=
  let mode := (rule.bind (·.deadlineMode)).getD .elapsed
  match rule with
  | none => ⟨mode, none, some "Для этапа не утверждён корректный предельный срок."⟩
  | some stageRule =>
    if !hasStageDeadline rule then
      ⟨mode, none, some "Для этапа не утверждён корректный предельный срок."⟩
    else if mode = .unlimited then ⟨mode, none, none⟩
    else match entry with
    | none => ⟨mode, none, some "Неизвестно достоверное время входа в этап."⟩
    | some entry =>
      if mode = .elapsed then
        match timeClip (entry + stageRule.maxDurationHours.getD 0 * hour) with
        | some deadline => ⟨mode, some deadline, none⟩
        | none => ⟨mode, none, some "Предельный срок этапа выходит за допустимый диапазон дат."⟩
      else
        let civil := civilTime entry formatter
        let target :=
          if mode = .endOfDay then civil / day * day + 19 * hour
          else addBusinessDays civil (stageRule.maxBusinessDays.getD 0).num.toNat
        match instantAtCivilTime target formatter with
        | some deadline => ⟨mode, some deadline, none⟩
        | none => ⟨mode, none,
            some "Местное время предельного срока неоднозначно или отсутствует при переводе часов."⟩

end AmoAnalytics.CrmControl
