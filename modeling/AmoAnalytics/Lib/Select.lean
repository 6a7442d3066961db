import AmoAnalytics.Lib.JsMap

/-!
# Selecting rows

A table is the list of its rows. A join is a choice of matching rows, a left join keeps the row without a match, and
a window works on the rows of one partition at a time. A condition on a key that every produced row carries can be put
on the source rows or on the result.
-/

namespace AmoAnalytics.Select

variable {α β κ : Type*}

/-- `LEFT JOIN … ON key = id`; no row matches a key that is null. -/
def leftJoin [DecidableEq κ] (id : α → κ) (key : Option κ) (rows : List α) : List (Option α) :=
  match rows.filter fun row => some (id row) = key with
  | [] => [none]
  | matching => matching.map some

/-- `… OVER (PARTITION BY key …)`: the window makes the result of one partition. -/
def overPartition [DecidableEq κ] (key : α → κ) (window : List α → List β) (rows : List α) : List β :=
  (JsMap.distinct (rows.map key)).flatMap fun k => window (rows.filter fun row => key row = k)

/-- Rows that carry the key of their source are selected with it. -/
theorem flatMap_filter {rows : List α} {p : α → Bool} {q : β → Bool} {f : α → List β}
    (h : ∀ a ∈ rows, ∀ b ∈ f a, q b = p a) : (rows.filter p).flatMap f = (rows.flatMap f).filter q := by
  induction rows with
  | nil => rfl
  | cons a rows ih =>
    have hrest := ih fun b hb => h b (List.mem_cons_of_mem _ hb)
    rw [List.flatMap_cons, List.filter_append, ← hrest, List.filter_cons]
    cases hp : p a with
    | true =>
      have hall : (f a).filter q = f a :=
        List.filter_eq_self.2 fun b hb => (h a List.mem_cons_self b hb).trans hp
      rw [if_pos rfl, List.flatMap_cons, hall]
    | false =>
      have hnone : (f a).filter q = [] := by
        refine List.filter_eq_nil_iff.2 fun b hb => ?_
        rw [h a List.mem_cons_self b hb, hp]
        exact Bool.false_ne_true
      rw [if_neg Bool.false_ne_true, hnone, List.nil_append]

section Distinct

variable [DecidableEq κ]

theorem keys_foldl_set (m : List (κ × Unit)) (keys : List κ) :
    (((keys.map fun k => (k, ())).foldl (fun m e => JsMap.set e.1 e.2 m) m).map Prod.fst) =
      keys.foldl (fun found k => if k ∈ found then found else found ++ [k]) (m.map Prod.fst) := by
  induction keys generalizing m with
  | nil => rfl
  | cons k keys ih => rw [List.map_cons, List.foldl_cons, List.foldl_cons, ih, JsMap.keys_set]

/-- The distinct keys that meet a condition are the distinct ones among those that meet it. -/
theorem distinct_filter (p : κ → Bool) (keys : List κ) :
    JsMap.distinct (keys.filter p) = (JsMap.distinct keys).filter p := by
  have key : ∀ found : List κ,
      (keys.filter p).foldl (fun found k => if k ∈ found then found else found ++ [k]) (found.filter p) =
        (keys.foldl (fun found k => if k ∈ found then found else found ++ [k]) found).filter p := by
    induction keys with
    | nil => exact fun _ => rfl
    | cons k keys ih =>
      intro found
      rw [List.foldl_cons, ← ih, List.filter_cons]
      cases hp : p k with
      | true =>
        rw [if_pos rfl, List.foldl_cons]
        congr 1
        by_cases hk : k ∈ found
        · rw [if_pos hk, if_pos (List.mem_filter.2 ⟨hk, hp⟩)]
        · rw [if_neg hk, if_neg fun hmem => hk (List.mem_filter.1 hmem).1, List.filter_append]
          simp [hp]
      | false =>
        rw [if_neg Bool.false_ne_true]
        congr 1
        split_ifs
        · rfl
        · rw [List.filter_append]
          simp [hp]
  unfold JsMap.distinct JsMap.ofEntries
  rw [keys_foldl_set, keys_foldl_set]
  exact key []

end Distinct

/-- A condition on the partition key can be put on the rows or on the result of the window. -/
theorem overPartition_filter [DecidableEq κ] {key : α → κ} {key' : β → κ} {window : List α → List β} {rows : List α}
    (hwindow : ∀ k, ∀ b ∈ window (rows.filter fun row => key row = k), key' b = k) (p : κ → Bool) :
    overPartition key window (rows.filter fun row => p (key row)) =
      (overPartition key window rows).filter fun b => p (key' b) := by
  unfold overPartition
  have hkeys : (rows.filter fun row => p (key row)).map key = (rows.map key).filter p := by
    rw [List.filter_map]
    rfl
  rw [hkeys, distinct_filter, ← flatMap_filter (p := p) fun k _ b hb => by rw [hwindow k b hb]]
  refine List.flatMap_congr fun k hk => ?_
  congr 1
  rw [List.filter_filter]
  refine List.filter_congr fun row _ => ?_
  by_cases hrow : key row = k
  · simp [hrow, (List.mem_filter.1 hk).2]
  · simp [hrow]

end AmoAnalytics.Select
