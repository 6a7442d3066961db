import Mathlib

/-!
# Tables with nullable unique indexes

A table is the list of its rows. `updateWhere` is the statement `UPDATE … SET f WHERE p`; a unique
index over a nullable column is `UniqueOn key`: two rows never hold the same non-null key. The
lemmas say how the rows and the index move under an update and an insert.
-/

namespace AmoAnalytics.Table

variable {ρ κ : Type*} {key : ρ → Option κ} {p : ρ → Bool} {f : ρ → ρ} {rows : List ρ} {r r' : ρ}

/-- `UPDATE … SET f WHERE p`. -/
def updateWhere (p : ρ → Bool) (f : ρ → ρ) (rows : List ρ) : List ρ :=
  rows.map fun r => if p r then f r else r

/-- The row an update leaves in the place of `r`. -/
theorem mem_updateWhere :
    r' ∈ updateWhere p f rows ↔ ∃ r ∈ rows, r' = if p r then f r else r := by
  simp only [updateWhere, List.mem_map, eq_comm]

theorem mem_updateWhere_of_mem (h : r ∈ rows) :
    (if p r then f r else r) ∈ updateWhere p f rows :=
  mem_updateWhere.2 ⟨r, h, rfl⟩

theorem mem_updateWhere_of_not (h : r ∈ rows) (hp : p r = false) : r ∈ updateWhere p f rows :=
  mem_updateWhere.2 ⟨r, h, by simp [hp]⟩

theorem mem_updateWhere_of_pos (h : r ∈ rows) (hp : p r = true) : f r ∈ updateWhere p f rows :=
  mem_updateWhere.2 ⟨r, h, by simp [hp]⟩

/-- An update whose condition no row meets changes nothing. -/
theorem updateWhere_of_none (h : ∀ r ∈ rows, p r = false) : updateWhere p f rows = rows := by
  unfold updateWhere
  conv_rhs => rw [← List.map_id rows]
  exact List.map_congr_left fun r hr => by simp [h r hr]

/-- A column that the update does not write is unchanged. -/
theorem map_updateWhere {β : Type*} (g : ρ → β) (h : ∀ r, p r = true → g (f r) = g r) :
    (updateWhere p f rows).map g = rows.map g := by
  unfold updateWhere
  rw [List.map_map]
  refine List.map_congr_left fun r _ => ?_
  by_cases hp : p r = true
  · simp [hp, h r hp]
  · simp [hp]

/-- A search by columns that the update does not write finds the same row, updated. -/
theorem find?_updateWhere {q : ρ → Bool} (h : ∀ r, p r = true → q (f r) = q r) :
    (updateWhere p f rows).find? q = (rows.find? q).map fun r => if p r then f r else r := by
  unfold updateWhere
  rw [List.find?_map]
  congr 2
  funext r
  by_cases hp : p r = true
  · simpa [hp] using h r hp
  · simp [hp]

theorem updateWhere_append (rows' : List ρ) :
    updateWhere p f (rows ++ rows') = updateWhere p f rows ++ updateWhere p f rows' :=
  List.map_append ..

/-- Updates of one row after another, by a function that may be repeated, are one update. -/
theorem foldl_updateWhere_eq {κ' : Type*} [DecidableEq κ'] {id : ρ → κ'} (hid : ∀ r, id (f r) = id r)
    (hf : ∀ r, f (f r) = f r) (keys : List κ') (rows : List ρ) :
    keys.foldl (fun rows k => updateWhere (fun r => decide (id r = k)) f rows) rows =
      updateWhere (fun r => keys.contains (id r)) f rows := by
  induction keys generalizing rows with
  | nil => exact (updateWhere_of_none fun _ _ => rfl).symm
  | cons k keys ih =>
    rw [List.foldl_cons, ih]
    unfold updateWhere
    rw [List.map_map]
    refine List.map_congr_left fun r _ => ?_
    by_cases hk : id r = k
    · by_cases hmem : keys.contains (id r) <;> simp [hk, hid, hf]
    · simp [hk]

/-- An update after which no more rows meet a condition than before. -/
theorem countP_updateWhere_le {q : ρ → Bool}
    (h : ∀ r ∈ rows, p r = true → q (f r) = true → q r = true) :
    (updateWhere p f rows).countP q ≤ rows.countP q := by
  rw [updateWhere, List.countP_map]
  refine List.countP_mono_left fun r hr hq => ?_
  by_cases hp : p r = true
  · exact h r hr hp (by simpa [hp] using hq)
  · simpa [hp] using hq

/-- A condition that at most one row meets determines the row. -/
theorem eq_of_countP_le_one (h : rows.countP p ≤ 1) (hr : r ∈ rows) (hr' : r' ∈ rows) (hp : p r = true)
    (hp' : p r' = true) : r = r' := by
  have hmem : r ∈ rows.filter p := List.mem_filter.2 ⟨hr, hp⟩
  have hmem' : r' ∈ rows.filter p := List.mem_filter.2 ⟨hr', hp'⟩
  rw [List.countP_eq_length_filter] at h
  obtain ⟨a, ha⟩ := List.length_eq_one_iff.1 (le_antisymm h (List.length_pos_of_mem hmem))
  rw [ha, List.mem_singleton] at hmem hmem'
  exact hmem.trans hmem'.symm

/-! ## Nullable unique indexes -/

/-- The unique index over `key`: no two rows hold the same non-null key. -/
def UniqueOn (key : ρ → Option κ) (rows : List ρ) : Prop :=
  rows.Pairwise fun a b => ∀ k, key a = some k → key b ≠ some k

@[simp] theorem uniqueOn_nil : UniqueOn key [] := List.Pairwise.nil

/-- Rows with the same non-null key are the same row. -/
theorem UniqueOn.eq_of_mem (h : UniqueOn key rows) (hr : r ∈ rows) (hr' : r' ∈ rows) {k : κ}
    (hk : key r = some k) (hk' : key r' = some k) : r = r' := by
  by_contra hne
  induction rows with
  | nil => simp at hr
  | cons a rows ih =>
    obtain ⟨ha, hrest⟩ := List.pairwise_cons.1 h
    rcases List.mem_cons.1 hr with h₁ | h₁ <;> rcases List.mem_cons.1 hr' with h₂ | h₂
    · exact hne (h₁.trans h₂.symm)
    · exact ha r' h₂ k (h₁ ▸ hk) hk'
    · exact ha r h₁ k (h₂ ▸ hk') hk
    · exact ih hrest h₁ h₂

/-- An insert whose key is free keeps the index. -/
theorem UniqueOn.append (h : UniqueOn key rows)
    (hfree : ∀ a ∈ rows, ∀ k, key a = some k → key r ≠ some k) :
    UniqueOn key (rows ++ [r]) := by
  refine List.pairwise_append.2 ⟨h, List.pairwise_singleton _ _, fun a ha b hb => ?_⟩
  obtain rfl : b = r := by simpa using hb
  exact hfree a ha

/-- An update that keeps the key or clears it keeps the index. -/
theorem UniqueOn.updateWhere (h : UniqueOn key rows)
    (hf : ∀ r, p r = true → key (f r) = key r ∨ key (f r) = none) :
    UniqueOn key (updateWhere p f rows) := by
  have hcol : ∀ r k, key (if p r then f r else r) = some k → key r = some k := by
    intro r k hk
    by_cases hp : p r = true
    · rcases hf r hp with he | he <;> simp_all
    · simpa [hp] using hk
  unfold Table.updateWhere
  refine List.pairwise_map.2 (h.imp fun {a b} hab k ha hb => ?_)
  exact hab k (hcol a k ha) (hcol b k hb)

/-- A unique index finds the row it is asked for. -/
theorem UniqueOn.find?_eq [DecidableEq κ] (h : UniqueOn key rows) (hr : r ∈ rows) {k : κ}
    (hk : key r = some k) : rows.find? (fun a => decide (key a = some k)) = some r := by
  cases hfind : rows.find? (fun a => decide (key a = some k)) with
  | none =>
    have := List.find?_eq_none.1 hfind r hr
    simp [hk] at this
  | some a =>
    have ha : key a = some k := by simpa using List.find?_some hfind
    exact congrArg some (h.eq_of_mem (List.mem_of_find?_eq_some hfind) hr ha hk)

end AmoAnalytics.Table
