import AmoAnalytics.Lib.JsMap
import AmoAnalytics.Lib.JsValue

/-!
# Equality of JavaScript values

An object is the list of its properties in the order of enumeration. Two values are equal, whatever the order of the
keys, when at every path both have the same value that is no object, both an object, or both nothing. The properties
of equal objects then correspond to each other one by one.
-/

namespace AmoAnalytics.JsValue

open JsText

/-- What is found at a path: `none` inside for an object. -/
def valueAt : JsValue → List JsString → Option (Option JsValue)
  | obj _, [] => some none
  | obj fields, k :: path => (JsMap.get? k fields).bind (valueAt · path)
  | v, [] => some (some v)
  | _, _ :: _ => none

/-- Equal whatever the order of the keys. -/
def Same (v w : JsValue) : Prop := ∀ path, valueAt v path = valueAt w path

/-- Every object in the value has each key once. -/
inductive WellKeyed : JsValue → Prop
  | leaf (v : JsValue) : v.isObject = false → WellKeyed v
  | obj (fields : List (JsString × JsValue)) : (fields.map Prod.fst).Nodup → (∀ field ∈ fields, WellKeyed field.2) →
    WellKeyed (obj fields)

variable {v w : JsValue} {k : JsString} {fields : List (JsString × JsValue)} {path : List JsString}

@[simp] theorem valueAt_obj_nil : valueAt (obj fields) [] = some none := by unfold valueAt; rfl

@[simp] theorem valueAt_obj_cons :
    valueAt (obj fields) (k :: path) = (JsMap.get? k fields).bind (valueAt · path) := by rw [valueAt]

theorem valueAt_leaf_nil (h : v.isObject = false) : valueAt v [] = some (some v) := by
  cases v <;> first | (unfold valueAt; rfl) | exact nomatch h

theorem valueAt_leaf_cons (h : v.isObject = false) : valueAt v (k :: path) = none := by
  cases v <;> first | (unfold valueAt; rfl) | exact nomatch h

theorem exists_fields (h : v.isObject = true) : ∃ fields, v = obj fields := by
  cases v <;> first | exact ⟨_, rfl⟩ | exact nomatch h

theorem valueAt_nil_ne_none : valueAt v [] ≠ none := by
  cases v <;> unfold valueAt <;> nofun

theorem get?_of_mem (hkeys : (fields.map Prod.fst).Nodup) (h : (k, v) ∈ fields) : JsMap.get? k fields = some v := by
  induction fields with
  | nil => exact absurd h List.not_mem_nil
  | cons field fields ih =>
    rw [List.map_cons, List.nodup_cons] at hkeys
    rw [JsMap.get?_cons]
    rcases List.mem_cons.1 h with rfl | h
    · rw [if_pos rfl]
    · rw [if_neg, ih hkeys.2 h]
      intro heq
      exact hkeys.1 (heq ▸ List.mem_map_of_mem h)

theorem get?_eq_none (h : k ∉ fields.map Prod.fst) : JsMap.get? k fields = none := by
  rw [JsMap.get?, List.find?_eq_none.2, Option.map_none]
  intro field hfield hkey
  exact h (of_decide_eq_true hkey ▸ List.mem_map_of_mem hfield)

namespace Same

/-- Equal values are both objects, or they are the same value. -/
theorem cases (h : Same v w) : (v.isObject = true ∧ w.isObject = true) ∨ (v.isObject = false ∧ v = w) := by
  have hnil := h []
  cases hv : v.isObject <;> cases hw : w.isObject
  · rw [valueAt_leaf_nil hv, valueAt_leaf_nil hw] at hnil
    exact Or.inr ⟨rfl, Option.some.inj (Option.some.inj hnil)⟩
  · obtain ⟨fields, rfl⟩ := exists_fields hw
    rw [valueAt_leaf_nil hv, valueAt_obj_nil] at hnil
    exact nomatch hnil
  · obtain ⟨fields, rfl⟩ := exists_fields hv
    rw [valueAt_leaf_nil hw, valueAt_obj_nil] at hnil
    exact nomatch hnil
  · exact Or.inl ⟨rfl, rfl⟩

variable {gs : List (JsString × JsValue)}

/-- Equal objects have equal properties. -/
theorem get? (h : Same (obj fields) (obj gs)) (hk : JsMap.get? k fields = some v) :
    ∃ w, JsMap.get? k gs = some w ∧ Same v w := by
  have hfound : valueAt (obj gs) [k] ≠ none := by
    rw [← h, valueAt_obj_cons, hk]
    exact valueAt_nil_ne_none
  obtain ⟨w, hw⟩ : ∃ w, JsMap.get? k gs = some w := by
    refine Option.ne_none_iff_exists'.1 fun hnone => hfound ?_
    rw [valueAt_obj_cons, hnone]
    rfl
  refine ⟨w, hw, fun path => ?_⟩
  have hpath := h (k :: path)
  rwa [valueAt_obj_cons, valueAt_obj_cons, hk, hw, Option.bind_some, Option.bind_some] at hpath

theorem symm (h : Same v w) : Same w v := fun path => (h path).symm

/-- The properties of equal objects correspond to each other one by one. -/
theorem entries (h : Same (obj fields) (obj gs)) (hfields : (fields.map Prod.fst).Nodup)
    (hgs : (gs.map Prod.fst).Nodup) :
    Multiset.Rel (fun a b : JsString × JsValue => a.1 = b.1 ∧ Same a.2 b.2) fields gs := by
  let partner : JsString × JsValue → JsString × JsValue := fun field =>
    (field.1, (JsMap.get? field.1 gs).getD undefined)
  have hpartner : ∀ field ∈ fields, ∃ w, partner field = (field.1, w) ∧ (field.1, w) ∈ gs ∧ Same field.2 w := by
    intro field hfield
    obtain ⟨w, hw, hsame⟩ := h.get? (get?_of_mem hfields hfield)
    exact ⟨w, by simp only [partner, hw, Option.getD_some], JsMap.mem_of_get? hw, hsame⟩
  have hperm : gs.Perm (fields.map partner) := by
    refine (List.perm_ext_iff_of_nodup (List.Nodup.of_map _ hgs) (List.Nodup.of_map Prod.fst ?_)).2 fun b => ?_
    · rw [List.map_map]
      exact hfields
    constructor
    · intro hb
      obtain ⟨v, hv, -⟩ := h.symm.get? (get?_of_mem hgs hb)
      have hmem := JsMap.mem_of_get? hv
      refine List.mem_map.2 ⟨_, hmem, ?_⟩
      simp only [partner, get?_of_mem hgs (show (b.1, b.2) ∈ gs from hb), Option.getD_some]
    · intro hb
      obtain ⟨field, hfield, rfl⟩ := List.mem_map.1 hb
      obtain ⟨w, hw, hmem, -⟩ := hpartner field hfield
      rwa [hw]
  rw [Multiset.coe_eq_coe.2 hperm, ← Multiset.map_coe, Multiset.rel_map_right]
  refine Multiset.rel_refl_of_refl_on fun field hfield => ?_
  obtain ⟨w, hw, -, hsame⟩ := hpartner field (Multiset.mem_coe.1 hfield)
  rw [hw]
  exact ⟨rfl, hsame⟩

/-- Equal values have equal properties of a given name. -/
theorem get (h : Same v w) (key : String) : Same (v.get key) (w.get key) := by
  rcases h.cases with ⟨hv, hw⟩ | ⟨-, rfl⟩
  swap
  · exact fun _ => rfl
  obtain ⟨fields, rfl⟩ := exists_fields hv
  obtain ⟨gs, rfl⟩ := exists_fields hw
  change Same ((JsMap.get? (js key) fields).getD undefined) ((JsMap.get? (js key) gs).getD undefined)
  rcases hk : JsMap.get? (js key) fields with _ | x
  · have hnone : JsMap.get? (js key) gs = none := by
      by_contra hsome
      obtain ⟨y, hy⟩ := Option.ne_none_iff_exists'.1 hsome
      obtain ⟨x, hx, -⟩ := h.symm.get? hy
      exact nomatch hk.symm.trans hx
    rw [hnone]
    exact fun _ => rfl
  · obtain ⟨y, hy, hsame⟩ := h.get? hk
    rw [hy]
    exact hsame

/-- Equal values have the same text. -/
theorem text (h : Same v w) : v.text = w.text := by
  rcases h.cases with ⟨hv, hw⟩ | ⟨-, rfl⟩
  swap
  · rfl
  obtain ⟨fields, rfl⟩ := exists_fields hv
  obtain ⟨gs, rfl⟩ := exists_fields hw
  have hiff : ∀ fs : List (JsString × JsValue), (fs.any fun field => field.1 = js "toString") = true ↔
      valueAt (obj fs) [js "toString"] ≠ none := by
    intro fs
    rw [valueAt_obj_cons, List.any_eq_true]
    constructor
    · rintro ⟨field, hfield, hkey⟩ hnone
      rcases hget : JsMap.get? (js "toString") fs with _ | x
      · rw [JsMap.get?, Option.map_eq_none_iff, List.find?_eq_none] at hget
        exact hget field hfield hkey
      · rw [hget] at hnone
        exact valueAt_nil_ne_none hnone
    · intro hsome
      obtain ⟨x, hx⟩ : ∃ x, JsMap.get? (js "toString") fs = some x := by
        refine Option.ne_none_iff_exists'.1 fun hnone => hsome ?_
        rw [hnone]
        rfl
      exact ⟨_, JsMap.mem_of_get? hx, decide_eq_true rfl⟩
  have hany : (fields.any fun field => field.1 = js "toString") = gs.any fun field => field.1 = js "toString" := by
    rw [Bool.eq_iff_iff, hiff, hiff, h]
  rw [JsValue.text, JsValue.text, hany]

end Same

end AmoAnalytics.JsValue
