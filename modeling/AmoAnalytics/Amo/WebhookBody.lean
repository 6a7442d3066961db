import AmoAnalytics.Lib.JsEqual

/-!
# The body of a webhook

`flattenWebhook` of `amo.service.ts`. A form-encoded body has keys such as `leads[add][0][id]`; `normalizeWebhookBody`
rebuilds the nested object from them, and the events are its items by entity and action. `none` is an exception, or a
write that touches what every object inherits.
-/

namespace AmoAnalytics.Amo

open JsText JsValue

abbrev Fields := List (JsString × JsValue)

/-! ## Properties -/

/-- The names that every object inherits. -/
def inherited : List JsString :=
  ["__proto__", "constructor", "hasOwnProperty", "isPrototypeOf", "propertyIsEnumerable", "toLocaleString",
    "toString", "valueOf", "__defineGetter__", "__defineSetter__", "__lookupGetter__", "__lookupSetter__"].map js

/-- The number of a key that is an array index. -/
def arrayIndex (key : JsString) : Option ℕ :=
  if key ≠ [] ∧ key.all isDigit = true ∧ (key = js "0" ∨ key.head? ≠ some 48) ∧ number key < 2 ^ 32 - 1 then
    some (number key)
  else none

/-- A property stays before a new one: array indices come first, in ascending order. -/
def precedes (new : JsString) (field : JsString × JsValue) : Bool :=
  match arrayIndex new with
  | none => true
  | some j => (arrayIndex field.1).any (· < j)

/-- `object[key] = value`. -/
def assign (key : JsString) (value : JsValue) (fields : Fields) : Fields :=
  if key ∈ fields.map Prod.fst then JsMap.set key value fields
  else fields.takeWhile (precedes key) ++ (key, value) :: fields.dropWhile (precedes key)

/-- `Object.entries(value)`; the characters of a text are left out, no caller uses them. -/
def entries : JsValue → Fields
  | .obj fields => fields
  | .arr items => items.zipIdx.map fun (item, i) => (js (toString i), item)
  | _ => []

/-- `value && typeof value === 'object'`. -/
def isObjectOrArray : JsValue → Bool
  | .obj _ | .arr _ => true
  | _ => false

/-- `value === undefined || value === null`. -/
def nullish : JsValue → Bool
  | .undefined | .null => true
  | _ => false

/-- `typeof value === 'object'`. -/
def typeofObject (value : JsValue) : Bool :=
  match value with
  | .null => true
  | _ => isObjectOrArray value

/-! ## Bracket keys -/

/-- The matches of `/\[([^\]]*)\]/g`, with the text since an open bracket. -/
def bracketGroups : Option JsString → JsString → List JsString
  | _, [] => []
  | none, c :: key => if c = 91 then bracketGroups (some []) key else bracketGroups none key
  | some text, c :: key => if c = 93 then text :: bracketGroups none key else bracketGroups (some (text ++ [c])) key

def parseFormBodyPath (key : JsString) : List JsString :=
  ((key.takeWhile (· ≠ 91)) :: bracketGroups none key).filter (· ≠ [])

/-- The object along the path; a scalar on the way becomes the property `value` of an object. -/
def setWebhookBodyValue : Fields → List JsString → JsValue → Option Fields
  | target, [], _ => some target
  | target, [part], value => if part = js "__proto__" then none else some (assign part value target)
  | target, part :: next :: rest, value =>
    let descend (inner : Fields) := (setWebhookBodyValue inner (next :: rest) value).map fun inner =>
      assign part (.obj inner) target
    match JsMap.get? part target with
    | none => if part ∈ inherited then none else descend []
    | some (.obj inner) => descend inner
    | some .undefined => descend []
    | some other => descend [(js "value", other)]

/-- One entry of a form-encoded body. -/
def setEntry (result : Fields) (entry : JsString × JsValue) : Option Fields :=
  let path := parseFormBodyPath entry.1
  if path = [] then some (assign entry.1 entry.2 result) else setWebhookBodyValue result path entry.2

def normalizeWebhookBody (body : JsValue) : Option JsValue :=
  match body with
  | .obj fields =>
    if fields.any fun entry => entry.1.contains 91 then (fields.foldlM setEntry []).map .obj else some body
  | _ => some body

/-! ## Items and events -/

structure AmoWebhookItem where
  entity : JsString
  action : JsString
  externalId : Option JsString
  payload : JsValue

def normalizeWebhookItems (raw : JsValue) : List JsValue :=
  match raw with
  | .undefined | .null => []
  | .arr items => items
  | .obj fields =>
    let values := fields.map Prod.snd
    if !values.isEmpty && values.all typeofObject then values else [raw]
  | _ => [.obj [(js "id", raw)]]

/-- `a ?? b ?? … ?? null`. -/
def coalesce (values : List JsValue) : JsValue := (values.find? fun value => !nullish value).getD .null

section Events

variable (toLowerCase : JsString → JsString)

def webhookExternalId (entity action : JsString) (item : JsValue) : JsValue :=
  let normalizedEntity := toLowerCase entity
  let normalizedAction := toLowerCase action
  let note := item.get "note"
  if includes normalizedEntity (js "message") then coalesce [item.get "contact_id", item.get "element_id"]
  else if includes normalizedAction (js "note") then
    let note := if note.isObject then note else .null
    coalesce [note.get "element_id", note.get "entity_id", item.get "element_id", item.get "entity_id",
      item.get "lead_id", item.get "contact_id", item.get "company_id", item.get "customer_id"]
  else if includes normalizedEntity (js "task") then
    coalesce [item.get "task_id", item.get "id", item.get "entity_id"]
  else coalesce [item.get "id", item.get "uid", item.get "entity_id", item.get "task_id", item.get "element_id"]

/-- The event of an item; reading a property of `null` throws. -/
def webhookEvent (entity action : JsString) (item : JsValue) : Option AmoWebhookItem :=
  if nullish item then none
  else
    let externalId := webhookExternalId toLowerCase entity action item
    if nullish externalId then some { entity, action, externalId := none, payload := item }
    else externalId.text.map fun text => { entity, action, externalId := some text, payload := item }

/-- The items of a body with their entities and actions. -/
def webhookItems (body : JsValue) : List (JsString × JsString × JsValue) :=
  (entries body).flatMap fun (entity, actions) =>
    if entity = js "account" || !isObjectOrArray actions then []
    else (entries actions).flatMap fun (action, rawItems) =>
      (normalizeWebhookItems rawItems).map fun item => (entity, action, item)

def flattenWebhook (body : JsValue) : Option (List AmoWebhookItem) :=
  (normalizeWebhookBody body).bind fun normalizedBody =>
    (webhookItems normalizedBody).mapM fun (entity, action, item) => webhookEvent toLowerCase entity action item

end Events

end AmoAnalytics.Amo
