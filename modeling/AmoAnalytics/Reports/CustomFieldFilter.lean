import AmoAnalytics.Lib.SqlText

/-!
# The custom field filters of a report

A filter is written twice: `factCustomFieldCondition` writes it as a condition on the `jsonb` column, and
`matchesCustomFieldFilters` evaluates it on the value read. A comparison of numbers agrees on every plain decimal that
rounding leaves on its side, but the two tests of texts read different texts.
-/

namespace AmoAnalytics.Reports.CustomFields

open JsText Json SqlText

inductive Operator
  | equals
  | contains
  | isSet
  | lt
  | lte
  | gt
  | gte
deriving DecidableEq

/-- A missing value is `none`. -/
structure Filter where
  fieldId : JsString
  operator : Operator
  value : Option Json

/-- The column `custom_fields`: the entries of its object. -/
abbrev Fields := List (JsString × Json)

/-- `LOWER` and `toLowerCase`, letter by letter, and the rounding of a number, which is `none` if it is infinite. -/
structure Runtime where
  lower : UInt16 → UInt16
  toDouble : ℚ → Option ℚ
  /-- No letter becomes a backslash. -/
  lower_backslash : ∀ c, lower c = 92 → c = 92

variable (runtime : Runtime)

/-! ## Values -/

def entry (fields : Fields) (key : JsString) : Option Json :=
  (fields.find? fun field => field.1 = key).map Prod.snd

mutual

/-- `String(value)`. -/
def stringOf : Json → JsString
  | .null => js "null"
  | .bool b => js (if b then "true" else "false")
  | .num n => n.text
  | .str s => s
  | .arr items => joined (itemTexts items)
  | .obj _ => js "[object Object]"

/-- The items as an array joins them. -/
def itemTexts : List Json → List JsString
  | [] => []
  | item :: items => (match item with
    | .null => []
    | item => stringOf item) :: itemTexts items

end

/-- `String(value ?? '')`. -/
def textOf : Option Json → JsString
  | none | some .null => []
  | some value => stringOf value

/-- `field?.value ?? field`. -/
def fieldValue (field : Option Json) : Option Json :=
  match field with
  | some (.obj fields) =>
    match entry fields (js "value") with
    | none | some .null => field
    | some value => some value
  | _ => field

/-- A number is its own text's number. -/
def toNumber (value : Option Json) : Option ℚ :=
  let raw := match value with
    | some (.arr items) => items.head?
    | _ => value
  match raw with
  | none | some .null | some (.str []) => none
  | some (.num n) => runtime.toDouble (numericValue n)
  | some raw => (numberOf (pointForComma ((stringOf raw).filter fun c => !isSpace c))).bind runtime.toDouble

/-- The comparison of an operator, for those that compare numbers. -/
def compare (operator : Operator) (a b : ℚ) : Bool :=
  match operator with
  | .lt => a < b
  | .lte => a ≤ b
  | .gt => b < a
  | .gte => b ≤ a
  | _ => false

/-! ## `factCustomFieldCondition` -/

/-- `COALESCE(custom_fields -> id ->> 'value', custom_fields ->> id, '')`. -/
def numericSource (fields : Fields) (fieldId : JsString) : JsString :=
  let value := match entry fields fieldId with
    | some (.obj inner) => (entry inner (js "value")).bind unquoted
    | _ => none
  (value <|> (entry fields fieldId).bind unquoted).getD []

/-- The condition on a row; a null is `none`. -/
def factCustomFieldCondition (filter : Filter) : Option (Fields → Option Bool) :=
  if filter.fieldId = [] then none
  else
    let pattern := 37 :: ((textOf filter.value).map runtime.lower ++ [37])
    let likeText : Fields → Option Bool := fun fields =>
      (entry fields filter.fieldId).map fun field => like pattern ((jsonbText field).map runtime.lower)
    match filter.operator with
    | .isSet => some fun fields => some (entry fields filter.fieldId).isSome
    | .contains => some likeText
    | .equals => some likeText
    | operator =>
      (toNumber runtime filter.value).map fun expected fields =>
        (plainDecimal (numericSource fields filter.fieldId)).map (compare operator · expected)

/-- A deal is selected if the condition is true of its row; no condition selects every deal. -/
def selects (filter : Filter) (fields : Fields) : Bool :=
  (factCustomFieldCondition runtime filter).all fun condition => condition fields = some true

/-! ## `matchesCustomFieldFilters` -/

def matchesCustomFieldFilter (fields : Fields) (filter : Filter) : Bool :=
  let value := fieldValue (entry fields filter.fieldId)
  match filter.operator with
  | .isSet =>
    match value with
    | none | some .null | some (.str []) => false
    | some _ => true
  | .contains => includes (textOf value) (textOf filter.value)
  | .equals => textOf value = textOf filter.value
  | operator =>
    match toNumber runtime value, toNumber runtime filter.value with
    | some actual, some expected => compare operator actual expected
    | _, _ => false

def matchesCustomFieldFilters (fields : Fields) (filters : List Filter) : Bool :=
  filters.all (matchesCustomFieldFilter runtime fields)

/-! ## Numbers -/

section Numbers

variable {runtime}

/-- A value whose text is cast to a decimal is read as that decimal, rounded. -/
theorem toNumber_of_plainDecimal {value : Json} {text : JsString} {d : ℚ} (htext : unquoted value = some text)
    (h : plainDecimal text = some d) : toNumber runtime (some value) = runtime.toDouble d := by
  cases value with
  | null => cases htext
  | bool b =>
    obtain rfl := Option.some.inj htext
    have hnone : plainDecimal (jsonbText (.bool b)) = none := by
      cases b <;> exact plainDecimal_other (by decide) (by decide)
    rw [hnone] at h
    cases h
  | num n =>
    obtain rfl := Option.some.inj htext
    have hvalue : plainDecimal (numericText n) = some d := h
    rw [plainDecimal_numericText] at hvalue
    rw [← Option.some.inj hvalue]
    rfl
  | str s =>
    obtain rfl := Option.some.inj htext
    cases s with
    | nil => cases h
    | cons c s =>
      have hread : toNumber runtime (some (.str (c :: s))) =
          (numberOf (pointForComma ((c :: s).filter fun c => !isSpace c))).bind runtime.toDouble := rfl
      rw [hread, number_of_plainDecimal h, Option.bind_some]
  | arr items =>
    obtain rfl := Option.some.inj htext
    have hnone : plainDecimal (jsonbText (.arr items)) = none := by
      rw [jsonbText]
      exact plainDecimal_other (by decide) (by decide)
    rw [hnone] at h
    cases h
  | obj fields =>
    obtain rfl := Option.some.inj htext
    have hnone : plainDecimal (jsonbText (.obj fields)) = none := by
      rw [jsonbText]
      exact plainDecimal_other (by decide) (by decide)
    rw [hnone] at h
    cases h

/-- So is the value of a field. -/
theorem toNumber_fieldValue {fields : Fields} {fieldId : JsString} {d : ℚ}
    (h : plainDecimal (numericSource fields fieldId) = some d) :
    toNumber runtime (fieldValue (entry fields fieldId)) = runtime.toDouble d := by
  unfold numericSource at h
  dsimp only at h
  have hempty : plainDecimal [] = none := rfl
  cases hentry : entry fields fieldId with
  | none =>
    rw [hentry] at h
    cases h
  | some field =>
    rw [hentry, Option.bind_some] at h
    have hown : ∀ {value : Json}, plainDecimal ((unquoted value).getD []) = some d →
        toNumber runtime (some value) = runtime.toDouble d := by
      intro value hvalue
      cases htext : unquoted value with
      | none =>
        rw [htext, Option.getD_none, hempty] at hvalue
        cases hvalue
      | some text =>
        rw [htext, Option.getD_some] at hvalue
        exact toNumber_of_plainDecimal htext hvalue
    cases field with
    | obj inner =>
      dsimp only at h
      rw [fieldValue]
      cases hinner : entry inner (js "value") with
      | none =>
        rw [hinner] at h
        exact hown h
      | some value =>
        rw [hinner, Option.bind_some] at h
        cases value with
        | null => exact hown h
        | bool _ | num _ | str _ | arr _ | obj _ => exact toNumber_of_plainDecimal rfl h
    | null | bool _ | num _ | str _ | arr _ => exact hown h

end Numbers

end AmoAnalytics.Reports.CustomFields
