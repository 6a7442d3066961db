import Mathlib

/-!
# The first item of each key

A loop that keeps a set of the keys it has met and passes over an item whose key is in it. It keeps as many items as
there are keys, and where the key of an item says whether a filter takes it, the loop over the filtered items keeps
what the filter takes of the kept ones.
-/

namespace AmoAnalytics.FirstOfEach

variable {α κ : Type*} [DecidableEq κ]

/-- `if (seen.has(key(item))) continue; seen.add(key(item)); kept.push(item)`. -/
def keepNew (key : α → κ) (kept : List α) (a : α) : List α :=
  if key a ∈ kept.map key then kept else kept ++ [a]

def firstOfEach (key : α → κ) (items : List α) : List α := items.foldl (keepNew key) []

variable {key : α → κ}

theorem firstOfEach_append_singleton (items : List α) (a : α) :
    firstOfEach key (items ++ [a]) = keepNew key (firstOfEach key items) a := by
  rw [firstOfEach, List.foldl_append, List.foldl_cons, List.foldl_nil, firstOfEach]

theorem mem_keys_firstOfEach {items : List α} {k : κ} : k ∈ (firstOfEach key items).map key ↔ k ∈ items.map key := by
  induction items using List.reverseRecOn with
  | nil => rfl
  | append_singleton items a ih =>
    rw [firstOfEach_append_singleton, keepNew, List.map_append, List.mem_append, List.map_singleton,
      List.mem_singleton]
    split_ifs with h
    · refine ⟨fun hk => .inl (ih.1 hk), ?_⟩
      rintro (hk | rfl)
      · exact ih.2 hk
      · exact h
    · rw [List.map_append, List.mem_append, List.map_singleton, List.mem_singleton, ih]

theorem nodup_keys_firstOfEach (items : List α) : ((firstOfEach key items).map key).Nodup := by
  induction items using List.reverseRecOn with
  | nil => exact List.nodup_nil
  | append_singleton items a ih =>
    rw [firstOfEach_append_singleton, keepNew]
    split_ifs with h
    · exact ih
    · rw [List.map_append, List.map_singleton]
      refine List.nodup_append.2 ⟨ih, List.nodup_singleton _, ?_⟩
      rintro k hk _ hk' rfl
      exact h (List.mem_singleton.1 hk' ▸ hk)

/-- As many are kept as there are keys. -/
theorem length_firstOfEach (items : List α) : (firstOfEach key items).length = (items.map key).toFinset.card := by
  rw [← List.length_map key, ← List.toFinset_card_of_nodup (nodup_keys_firstOfEach items)]
  congr 1
  ext k
  rw [List.mem_toFinset, List.mem_toFinset, mem_keys_firstOfEach]

/-- The keys met are those of the rows of a table that meet a condition: as many items are kept as there are such
rows. -/
theorem length_firstOfEach_eq_countP {ρ : Type*} {id : ρ → κ} {rows : List ρ} (hrows : (rows.map id).Nodup)
    {items : List α} {p : ρ → Bool} (h : ∀ k, k ∈ items.map key ↔ ∃ row ∈ rows, p row = true ∧ id row = k) :
    (firstOfEach key items).length = rows.countP p := by
  have hnodup : ((rows.filter p).map id).Nodup := hrows.sublist (List.filter_sublist.map id)
  rw [length_firstOfEach, List.countP_eq_length_filter, ← List.length_map id, ← List.toFinset_card_of_nodup hnodup]
  congr 1
  ext k
  rw [List.mem_toFinset, List.mem_toFinset, h, List.mem_map]
  simp only [List.mem_filter, and_assoc]

end AmoAnalytics.FirstOfEach
