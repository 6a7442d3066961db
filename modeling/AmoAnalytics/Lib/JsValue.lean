import AmoAnalytics.Lib.JsText

/-!
# JavaScript values

What `JSON.parse` may give, and `undefined`: a tree that nothing is known about.
-/

namespace AmoAnalytics

/-- A value; a number is an integer, or `none` for every other one. -/
inductive JsValue
  | undefined
  | null
  | bool (value : Bool)
  | num (value : Option ℤ)
  | str (value : JsString)
  | arr (items : List JsValue)
  | obj (fields : List (JsString × JsValue))

namespace JsValue

open JsText

/-- `value.key` of an object. -/
def get (v : JsValue) (key : String) : JsValue :=
  match v with
  | obj fields => ((fields.find? fun field => field.1 = js key).map Prod.snd).getD undefined
  | _ => undefined

/-- An object that is no array. -/
def isObject : JsValue → Bool
  | obj _ => true
  | _ => false

/-- `Object.keys(value).every(key => keys.includes(key))`. -/
def onlyKeys (v : JsValue) (keys : List String) : Bool :=
  match v with
  | obj fields => fields.all fun field => keys.any fun key => js key = field.1
  | _ => true

def isUndefined : JsValue → Bool
  | undefined => true
  | _ => false

def str? : JsValue → Option JsString
  | str s => some s
  | _ => none

def arr? : JsValue → Option (List JsValue)
  | arr items => some items
  | _ => none

/-- `value === text`. -/
def isText (v : JsValue) (s : JsString) : Bool := v.str? = some s

def isNum (v : JsValue) (n : ℤ) : Bool :=
  match v with
  | num m => m = some n
  | _ => false

mutual

/-- `String(value)`; an object with a `toString` of its own, which is no function, throws. -/
def text : JsValue → Option JsString
  | undefined => some (js "undefined")
  | null => some (js "null")
  | bool b => some (js (if b then "true" else "false"))
  | num n => some (js ((n.map toString).getD "NaN"))
  | str s => some s
  | arr items => (texts items).map fun parts => (parts.intersperse (js ",")).flatten
  | obj fields =>
    if fields.any fun field => field.1 = js "toString" then none else some (js "[object Object]")

/-- The elements of an array, null and undefined as the empty text. -/
def texts : List JsValue → Option (List JsString)
  | [] => some []
  | item :: items =>
    match item with
    | undefined | null => (texts items).map ([] :: ·)
    | item => (text item).bind fun part => (texts items).map (part :: ·)

end

end JsValue

end AmoAnalytics
