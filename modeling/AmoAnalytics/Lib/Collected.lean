import AmoAnalytics.Lib.JsMap

/-!
# Collecting items in a map

A loop over items that each update the entry of their key. The entry of a key is what the items of that key make of
it, in their order.
-/

namespace AmoAnalytics.JsMap

variable {κ ν α : Type*} [DecidableEq κ]

theorem get?_eq_some_iff {es : List (κ × ν)} (h : (es.map Prod.fst).Nodup) {k : κ} {v : ν} :
    get? k es = some v ↔ (k, v) ∈ es := by
  refine ⟨mem_of_get?, fun hmem => ?_⟩
  obtain ⟨y, hy⟩ : ∃ y, get? k es = some y := by
    rw [← Option.isSome_iff_exists, get?, Option.isSome_map, List.find?_isSome]
    exact ⟨(k, v), hmem, decide_eq_true rfl⟩
  have hpair := List.inj_on_of_nodup_map h (mem_of_get? hy) hmem rfl
  rw [hy, (Prod.mk.inj hpair).2]

theorem get?_map {μ : Type*} (f : ν → μ) (k : κ) (es : List (κ × ν)) :
    get? k (es.map fun e => (e.1, f e.2)) = (get? k es).map f := by
  induction es with
  | nil => rfl
  | cons e es ih =>
    rw [List.map_cons, get?_cons, get?_cons, ih]
    split_ifs <;> rfl

theorem get?_mapEntries {μ : Type*} (f : κ → ν → μ) (k : κ) (es : List (κ × ν)) :
    get? k (es.map fun e => (e.1, f e.1 e.2)) = (get? k es).map (f k) := by
  induction es with
  | nil => rfl
  | cons e es ih =>
    rw [List.map_cons, get?_cons, get?_cons, ih]
    split_ifs with he
    · rw [he, Option.map_some]
    · rfl

theorem isSome_get?_iff {k : κ} {es : List (κ × ν)} : (get? k es).isSome = true ↔ k ∈ es.map Prod.fst := by
  rw [get?, Option.isSome_map, List.find?_isSome, List.mem_map]
  simp only [decide_eq_true_eq]

/-! ## The loop -/

variable (key : α → κ) (update : Option ν → α → ν)

/-- `for (const item of items) map.set(key(item), update(map.get(key(item)), item))`. -/
def collect (items : List α) (es : List (κ × ν)) : List (κ × ν) :=
  items.foldl (fun es a => set (key a) (update (get? (key a) es) a) es) es

theorem get?_collect (k : κ) (items : List α) (es : List (κ × ν)) :
    get? k (collect key update items es) =
      (items.filter fun a => key a = k).foldl (fun entry a => some (update entry a)) (get? k es) := by
  induction items generalizing es with
  | nil => rfl
  | cons a items ih =>
    rw [collect, List.foldl_cons, ← collect, ih, get?_set]
    by_cases hk : key a = k
    · rw [if_pos hk, List.filter_cons_of_pos (by simpa using hk), List.foldl_cons, hk]
    · rw [if_neg hk, List.filter_cons_of_neg (by simpa using hk)]

theorem nodup_keys_collect {items : List α} {es : List (κ × ν)} (h : (es.map Prod.fst).Nodup) :
    ((collect key update items es).map Prod.fst).Nodup := by
  induction items generalizing es with
  | nil => exact h
  | cons a items ih => exact ih (nodup_keys_set h)

/-- A fold that begins with nothing ends with something exactly when there are items. -/
theorem foldl_some_isSome (step : Option ν → α → ν) {items : List α} :
    (items.foldl (fun entry a => some (step entry a)) none).isSome = true ↔ items ≠ [] := by
  induction items using List.reverseRecOn with
  | nil => simp
  | append_singleton items a ih => simp

theorem mem_keys_collect {k : κ} {items : List α} :
    k ∈ (collect key update items []).map Prod.fst ↔ ∃ a ∈ items, key a = k := by
  rw [← isSome_get?_iff, get?_collect]
  change (List.foldl _ none _).isSome = true ↔ _
  rw [foldl_some_isSome, Ne, List.filter_eq_nil_iff]
  simp only [decide_eq_true_eq, not_forall, not_not]
  exact ⟨fun ⟨a, ha, hk⟩ => ⟨a, ha, hk⟩, fun ⟨a, ha, hk⟩ => ⟨a, ha, hk⟩⟩

/-- Where an entry is only set when the map has none of its key, a key has its first item. -/
theorem get?_collect_first (k : κ) (items : List α) :
    get? k (collect key (fun first a => first.getD a) items []) = items.find? fun a => decide (key a = k) := by
  have hkept : ∀ (rest : List α) (a : α), rest.foldl (fun entry a => some (entry.getD a)) (some a) = some a := by
    intro rest a
    induction rest with
    | nil => rfl
    | cons b rest ih => exact ih
  rw [get?_collect, ← List.head?_filter]
  change List.foldl (fun entry a => some (entry.getD a)) none _ = _
  cases items.filter fun a => decide (key a = k) with
  | nil => rfl
  | cons a rest => exact hkept rest a

/-- `new Map(keys.map((key) => [key, v]))`. -/
theorem get?_ofEntries_const (v : ν) (keys : List κ) (k : κ) :
    get? k (ofEntries (keys.map fun key => (key, v))) = if k ∈ keys then some v else none := by
  induction keys using List.reverseRecOn with
  | nil => rfl
  | append_singleton keys key ih =>
    rw [ofEntries, List.map_append, List.foldl_append, ← ofEntries, List.map_singleton, List.foldl_cons,
      List.foldl_nil, get?_set, ih]
    by_cases hk : key = k
    · rw [if_pos hk, if_pos (by simp [hk])]
    · have hmem : k ∈ keys ++ [key] ↔ k ∈ keys := by simp [Ne.symm hk]
      rw [if_neg hk, if_congr hmem rfl rfl]

end AmoAnalytics.JsMap
