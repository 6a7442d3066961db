import AmoAnalytics.Lib.Table

/-!
# The deals

The table of the deals as the synchronisation writes it: a deal that the source returns is written and is not deleted;
a deal that the source no longer has is marked.
-/

namespace AmoAnalytics.Amo

/-- A deal at the source; its pipeline and stage are known here or not. -/
structure Lead where
  id : String
  known : Bool
  deriving DecidableEq

/-- `Deal`. -/
structure DealRow where
  externalId : String
  deletedAt : Option ℤ := none
  deriving DecidableEq

/-- The table with its unique index. -/
structure DealTable where
  rows : List DealRow
  unique : (rows.map (·.externalId)).Nodup

namespace DealTable

variable (deals : DealTable) {id : String} {now : ℤ}

def empty : DealTable := ⟨[], List.nodup_nil⟩

/-- The deals that are not deleted. -/
def live : List String := (deals.rows.filter fun row => row.deletedAt = none).map (·.externalId)

theorem live_nodup : deals.live.Nodup :=
  deals.unique.sublist (List.filter_sublist.map _)

theorem mem_live : id ∈ deals.live ↔ ∃ row ∈ deals.rows, row.deletedAt = none ∧ row.externalId = id := by
  simp [live, and_assoc]

/-- An update that writes no external id. -/
def update (p : DealRow → Bool) (deletedAt : Option ℤ) : DealTable where
  rows := Table.updateWhere p (fun row => { row with deletedAt := deletedAt }) deals.rows
  unique := by
    rw [Table.map_updateWhere]
    · exact deals.unique
    · exact fun _ _ => rfl

def insert (row : DealRow) (h : row.externalId ∉ deals.rows.map (·.externalId)) : DealTable where
  rows := deals.rows ++ [row]
  unique := by
    rw [List.map_append, List.map_singleton]
    exact deals.unique.append (List.nodup_singleton _) (List.disjoint_singleton.2 h)

/-- `upsertDeal`: a deal of an unknown pipeline or stage is left out. -/
def upsertDeal (lead : Lead) : DealTable :=
  if lead.known then
    if h : lead.id ∈ deals.rows.map (·.externalId) then deals.update (fun row => row.externalId = lead.id) none
    else deals.insert ⟨lead.id, none⟩ h
  else deals

/-- `updateMany` of the deals that the source does not have. -/
def markDeleted (externalIds : List String) (deletedAt : ℤ) : DealTable :=
  deals.update (fun row => externalIds.contains row.externalId && row.deletedAt.isNone) (some deletedAt)

variable {deals}

theorem mem_live_upsertDeal {lead : Lead} :
    id ∈ (deals.upsertDeal lead).live ↔ id ∈ deals.live ∨ lead.known = true ∧ id = lead.id := by
  unfold upsertDeal
  split_ifs with hknown hstored
  · simp only [mem_live, update, Table.mem_updateWhere, hknown, true_and]
    constructor
    · rintro ⟨_, ⟨row, hrow, rfl⟩, hlive, rfl⟩
      by_cases hid : row.externalId = lead.id
      · simp [hid]
      · rw [if_neg (by simpa using hid)] at hlive ⊢
        exact Or.inl ⟨row, hrow, hlive, rfl⟩
    · rintro (⟨row, hrow, hlive, rfl⟩ | rfl)
      · refine ⟨_, ⟨row, hrow, rfl⟩, ?_, ?_⟩ <;> split_ifs <;> first | rfl | exact hlive
      · obtain ⟨row, hrow, hid⟩ := List.mem_map.1 hstored
        exact ⟨_, ⟨row, hrow, rfl⟩, by simp [hid], by simp [hid]⟩
  · simp [mem_live, insert, hknown, or_and_right, exists_or, eq_comm (a := id)]
  · simp [hknown]

theorem mem_live_foldl_upsertDeal {leads : List Lead} :
    id ∈ (leads.foldl upsertDeal deals).live ↔
      id ∈ deals.live ∨ ∃ lead ∈ leads, lead.known = true ∧ id = lead.id := by
  induction leads generalizing deals with
  | nil => simp
  | cons lead leads ih => rw [List.foldl_cons, ih, mem_live_upsertDeal, List.exists_mem_cons_iff, or_assoc]

theorem mem_live_markDeleted {externalIds : List String} :
    id ∈ (deals.markDeleted externalIds now).live ↔ id ∈ deals.live ∧ id ∉ externalIds := by
  simp only [mem_live, markDeleted, update, Table.mem_updateWhere]
  constructor
  · rintro ⟨_, ⟨row, hrow, rfl⟩, hlive, rfl⟩
    split_ifs at hlive ⊢ with hmarked
    simp only [Bool.and_eq_true, List.contains_iff_mem, Option.isNone_iff_eq_none, not_and] at hmarked
    exact ⟨⟨row, hrow, hlive, rfl⟩, fun hmem => hmarked hmem hlive⟩
  · rintro ⟨⟨row, hrow, hlive, rfl⟩, hnot⟩
    refine ⟨row, ⟨row, hrow, ?_⟩, hlive, rfl⟩
    rw [if_neg (by simp [hnot])]

end DealTable

end AmoAnalytics.Amo
