import AmoAnalytics.Lib.JsMap

/-!
# Data of the CRM control

The rule input, the rule result and the text helpers, as `crm-control.types.ts` and the JavaScript
runtime have them. Times are milliseconds since the epoch; a `Date` that may be null or invalid is
an `Option ℤ`, and `number` is ℚ.
-/

namespace AmoAnalytics.CrmControl

/-! ## JSON -/

inductive Json
  | null
  | bool (value : Bool)
  | num (value : ℚ)
  | str (value : String)
  | arr (items : List Json)
  | obj (fields : List (String × Json))
  deriving Inhabited

/-- A record of details, as the list of its fields. -/
abbrev Details := List (String × Json)

namespace Details

/-- `{ ...details, ...more }`. -/
def spread (details more : Details) : Details :=
  more.foldl (fun acc field => JsMap.set field.1 field.2 acc) details

/-- `details?.[key] === true`. -/
def isTrue (details : Option Details) (key : String) : Bool :=
  match details.bind (JsMap.get? key) with
  | some (.bool true) => true
  | _ => false

end Details

/-- `value ?? null` for a text. -/
def Json.ofText : Option String → Json
  | none => .null
  | some s => .str s

def Json.ofTexts (texts : List String) : Json := .arr (texts.map .str)

/-! ## Texts -/

/-- White space and line terminators, as `String.prototype.trim` removes them. -/
def isTrimmed (c : Char) : Bool :=
  let n := c.toNat
  (9 ≤ n ∧ n ≤ 13) ∨ n = 0x20 ∨ n = 0xA0 ∨ n = 0x1680 ∨ (0x2000 ≤ n ∧ n ≤ 0x200A) ∨ n = 0x2028 ∨
    n = 0x2029 ∨ n = 0x202F ∨ n = 0x205F ∨ n = 0x3000 ∨ n = 0xFEFF

def trim (s : String) : String :=
  String.ofList (((s.toList.dropWhile isTrimmed).reverse.dropWhile isTrimmed).reverse)

/-- `length` of a text, in UTF-16 units. -/
def utf16Length (s : String) : ℕ := (s.toList.map fun c => if c.toNat > 0xFFFF then 2 else 1).sum

/-- `a || b` for texts. -/
def orElse (a b : String) : String := if a = "" then b else a

/-! ## Configuration -/

inductive DeadlineMode
  | elapsed
  | businessDays
  | endOfDay
  | unlimited
  deriving DecidableEq

def DeadlineMode.code : DeadlineMode → String
  | .elapsed => "elapsed"
  | .businessDays => "business_days"
  | .endOfDay => "end_of_day"
  | .unlimited => "unlimited"

structure StageRule where
  allowedTaskTypeIds : Option (List ℚ) := none
  deadlineMode : Option DeadlineMode := none
  maxDurationHours : Option ℚ := none
  maxBusinessDays : Option ℚ := none

inductive Department
  | sales
  | csm
  deriving DecidableEq

def Department.code : Department → String
  | .sales => "sales"
  | .csm => "csm"

/-- A stage of the settings: not chosen, declared absent by the owner (`null`), or chosen. -/
inductive StageRef
  | unset
  | absent
  | stage (id : String)
  deriving DecidableEq

/-- The chosen stage; the empty text is no choice. -/
def StageRef.chosen : StageRef → Option String
  | .stage id => if id = "" then none else some id
  | _ => none

structure Scope where
  department : Department
  pipelineId : String
  assignedStageId : StageRef := .unset
  newClientStageId : StageRef := .unset
  baseStageId : StageRef := .unset
  preparedProposalStageId : StageRef := .unset
  priceRequestedStageId : StageRef := .unset
  checkDealAge : Option Bool := none
  stageRules : List (String × StageRule) := []

inductive MaxDealAge
  | calendarMonth
  | thirtyDays
  deriving DecidableEq

def MaxDealAge.code : MaxDealAge → String
  | .calendarMonth => "calendar_month"
  | .thirtyDays => "30_days"

structure Config where
  timeZone : String
  maxDealAge : MaxDealAge := .calendarMonth
  excludeBaseFromAge : Bool := true

/-! ## Rule input -/

structure Deal where
  id : String
  externalId : String
  title : String
  createdAt : Option ℤ
  pipelineId : String
  stageId : String
  responsibleId : Option String

structure Task where
  id : String
  externalId : String
  title : String
  typeId : Option ℚ
  dueAt : Option ℤ
  isCompleted : Bool
  raw : Json

structure Note where
  id : String
  externalId : String
  type : String
  text : Option String
  createdAt : Option ℤ
  raw : Json

structure Communication where
  id : String
  createdAt : Option ℤ

structure SourceCompleteness where
  deal : Bool
  tasks : Bool
  notes : Bool
  stageHistory : Bool
  communications : Bool

structure RuleInput where
  deal : Deal
  tasks : List Task
  notes : List Note
  communications : List Communication
  stageEnteredAt : Option ℤ
  observedAt : Option ℤ
  sourceCompleteness : SourceCompleteness
  config : Config
  scope : Scope

/-! ## Rule results -/

inductive ResultStatus
  | pass
  | fail
  | review
  | unknown
  | na
  deriving DecidableEq

def ResultStatus.code : ResultStatus → String
  | .pass => "PASS"
  | .fail => "FAIL"
  | .review => "REVIEW"
  | .unknown => "UNKNOWN"
  | .na => "NA"

structure RuleResult where
  ruleCode : String
  ruleName : String
  status : ResultStatus
  message : String
  subjectId : Option String := none
  clauses : List String
  details : Option Details := none

/-- `result.subjectId ?? ''`. -/
def RuleResult.subject (result : RuleResult) : String := result.subjectId.getD ""

/-- The rule and the subject, which identify a result within one observation. -/
def RuleResult.key (result : RuleResult) : String × String := (result.ruleCode, result.subject)

end AmoAnalytics.CrmControl
