import AmoAnalytics.Lib.Collected
import AmoAnalytics.Lib.JsonOrder

/-!
# Reading a JSON value

The properties of an object and `String(value)`. The same values read the same, whatever the order of their keys.
-/

namespace AmoAnalytics.Json

open JsText

/-- `value.key` of an object; nothing of any other value. -/
def get (v : Json) (key : String) : Option Json :=
  match v with
  | obj fields => JsMap.get? (js key) fields
  | _ => none

def isObject : Json → Bool
  | obj _ => true
  | _ => false

def str? : Json → Option JsString
  | str s => some s
  | _ => none

mutual

/-- `String(value)`; an object with a `toString` of its own, which is no function, throws. -/
def asText : Json → Option JsString
  | null => some (js "null")
  | bool b => some (js (if b then "true" else "false"))
  | num n => some n.text
  | str s => some s
  | arr items => (itemTexts items).map joined
  | obj fields => if fields.any fun field => field.1 = js "toString" then none else some (js "[object Object]")

/-- The items of an array, null as the empty text. -/
def itemTexts : List Json → Option (List JsString)
  | [] => some []
  | .null :: items => (itemTexts items).map ([] :: ·)
  | item :: items => (asText item).bind fun text => (itemTexts items).map (text :: ·)

end

/-- The text of an item of an array. -/
def itemText : Json → Option JsString
  | null => some []
  | item => asText item

theorem itemTexts_cons (item : Json) (items : List Json) :
    itemTexts (item :: items) = (itemText item).bind fun text => (itemTexts items).map (text :: ·) := by
  cases item with
  | null => rw [itemTexts, itemText, Option.bind_some]
  | _ =>
    rw [itemTexts]
    · rfl
    · nofun

/-! ## The same values read the same -/

theorem Same.asText {a b : Json} (h : Same a b) : a.asText = b.asText := by
  induction a using induct generalizing b with
  | null => cases h; rfl
  | bool b => cases h; rfl
  | num n => cases h; rfl
  | str s => cases h; rfl
  | arr items ih =>
    cases h with
    | arr hitems =>
      rw [Json.asText, Json.asText]
      congr 1
      induction hitems with
      | nil => rfl
      | @cons x y _ _ hxy _ hrest =>
        have hitem : itemText x = itemText y := by
          have hasText := ih x List.mem_cons_self hxy
          cases hxy <;> first | rfl | exact hasText
        rw [itemTexts_cons, itemTexts_cons, hitem, hrest fun x hx => ih x (List.mem_cons_of_mem _ hx)]
  | obj fields ih =>
    cases h with
    | @obj _ zs ys hfields hperm =>
      have hany : ∀ fs : List (JsString × Json), (fs.any fun field => field.1 = js "toString") =
          (fs.map Prod.fst).any fun key => key = js "toString" := fun fs => by rw [List.any_map]; rfl
      have hkeys : ((fields.map Prod.fst).any fun key => key = js "toString") =
          ((ys.map Prod.fst).any fun key => key = js "toString") := by
        rw [keys_forall₂ hfields]
        exact (hperm.map Prod.fst).any_eq
      rw [Json.asText, Json.asText, hany, hany, hkeys]

/-- Two values that are both missing or the same. -/
def SameOption (a b : Option Json) : Prop := a = none ∧ b = none ∨ ∃ x y, a = some x ∧ b = some y ∧ Same x y

/-- The same values have the same properties. -/
theorem Same.get {a b : Json} (h : Same a b) (ha : Distinct a) (hb : Distinct b) (key : String) :
    SameOption (a.get key) (b.get key) := by
  cases h with
  | null => exact .inl ⟨rfl, rfl⟩
  | bool b => exact .inl ⟨rfl, rfl⟩
  | num n => exact .inl ⟨rfl, rfl⟩
  | str s => exact .inl ⟨rfl, rfl⟩
  | arr hitems => exact .inl ⟨rfl, rfl⟩
  | @obj xs zs ys hfields hperm =>
    cases ha with
    | obj hxs _ =>
      cases hb with
      | obj hys _ =>
        have hzs : (zs.map Prod.fst).Nodup := keys_forall₂ hfields ▸ hxs
        have hzy : JsMap.get? (js key) zs = JsMap.get? (js key) ys := by
          ext x
          rw [JsMap.get?_eq_some_iff hzs, JsMap.get?_eq_some_iff hys, hperm.mem_iff]
        change SameOption (JsMap.get? (js key) xs) (JsMap.get? (js key) ys)
        rw [← hzy]
        rename_i hdistinct _
        clear hperm hxs hys hzs hzy hdistinct
        induction hfields with
        | nil => exact .inl ⟨rfl, rfl⟩
        | @cons x z xs zs hxz _ ih =>
          obtain ⟨hxz⟩ := hxz
          rw [JsMap.get?_cons, JsMap.get?_cons]
          split
          · exact .inr ⟨_, _, rfl, rfl, hxz⟩
          · exact ih

end AmoAnalytics.Json
