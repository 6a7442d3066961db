import AmoAnalytics.Amo.DealTable

/-!
# The full snapshot of the deals

`syncDeals` of `amo-sync.service.ts` with `isFullSync`: all deals of the source are written, page by page; a snapshot
that looks too small is refused; then the deals that the source does not have are marked deleted, and the number of
deals that are left is compared with the source.
-/

namespace AmoAnalytics.Amo

/-! ## Pages -/

/-- How the source answers the request of a page: with deals and whether a next page exists, or with an error; the
error may also come from a deal of the page, after the deals of `handled`. -/
inductive PageResult
  | page (leads : List Lead) (next : Bool)
  | failed (handled : List Lead)

/-- The deals that `paginateBatch` hands over, and whether it ends with an error. A page that the source does not
answer has no deals. -/
def paginateBatch : List PageResult → List Lead × Bool
  | [] => ([], false)
  | .failed handled :: _ => (handled, true)
  | .page [] _ :: _ => ([], false)
  | .page leads false :: _ => (leads, false)
  | .page leads true :: pages => (leads ++ (paginateBatch pages).1, (paginateBatch pages).2)

/-! ## Reconciliation -/

inductive SnapshotError
  | pagination
  | tooSmall (source activeBefore : ℕ)
  | parity (source stored : ℕ)
  deriving DecidableEq

structure Snapshot where
  deals : DealTable
  error : Option SnapshotError

def deletedBatchSize : ℕ := 500

/-- The loop that marks the missing deals, a batch of external ids at a time. -/
def markMissing (deals : DealTable) (missing : List String) (deletedAt : ℤ) : DealTable :=
  if missing = [] then deals
  else
    markMissing (deals.markDeleted (missing.take deletedBatchSize) deletedAt) (missing.drop deletedBatchSize) deletedAt
termination_by missing.length
decreasing_by
  rename_i hmissing
  have hpos := List.length_pos_iff.2 hmissing
  simp only [List.length_drop, deletedBatchSize]
  omega

/-- The snapshot is smaller than four fifths of the deals that are stored. -/
def suspicious (activeBefore source : ℕ) : Bool := decide (100 ≤ activeBefore) && decide (5 * source < 4 * activeBefore)

/-- The external ids of the source. -/
def sourceExternalIds (pages : List PageResult) : List String := ((paginateBatch pages).1.map (·.id)).dedup

/-- `syncDeals` of a full sync. -/
def syncDeals (deals : DealTable) (pages : List PageResult) (deletedAt : ℤ) : Snapshot :=
  let activeBefore := deals.live
  let source := sourceExternalIds pages
  let written := (paginateBatch pages).1.foldl .upsertDeal deals
  if (paginateBatch pages).2 then ⟨written, some .pagination⟩
  else if suspicious activeBefore.length source.length then
    ⟨written, some (.tooSmall source.length activeBefore.length)⟩
  else
    let missing := activeBefore.filter fun externalId => !source.contains externalId
    let verified := markMissing written missing deletedAt
    if verified.live.length = source.length then ⟨verified, none⟩
    else ⟨verified, some (.parity source.length verified.live.length)⟩

/-! ## What is left -/

variable {deals : DealTable} {pages : List PageResult} {deletedAt : ℤ} {id : String}

theorem mem_live_markMissing : ∀ {missing : List String} {deals : DealTable},
    id ∈ (markMissing deals missing deletedAt).live ↔ id ∈ deals.live ∧ id ∉ missing := by
  intro missing
  induction hlength : missing.length using Nat.strong_induction_on generalizing missing with
  | _ n ih =>
    intro deals
    rw [markMissing]
    split_ifs with hempty
    · simp [hempty]
    · have hpos := List.length_pos_iff.2 hempty
      have hshort : (missing.drop deletedBatchSize).length < n := by
        simp only [List.length_drop, deletedBatchSize]
        omega
      rw [ih _ hshort rfl, DealTable.mem_live_markDeleted, and_assoc, ← not_or, ← List.mem_append, List.take_append_drop]

theorem mem_sourceExternalIds : id ∈ sourceExternalIds pages ↔ ∃ lead ∈ (paginateBatch pages).1, lead.id = id := by
  simp [sourceExternalIds]

/-- A deal that is written has an external id of the source. -/
theorem mem_live_written (h : id ∈ ((paginateBatch pages).1.foldl .upsertDeal deals).live) :
    id ∈ deals.live ∨ id ∈ sourceExternalIds pages := by
  refine (DealTable.mem_live_foldl_upsertDeal.1 h).imp_right ?_
  rintro ⟨lead, hlead, -, rfl⟩
  exact mem_sourceExternalIds.2 ⟨lead, hlead, rfl⟩

theorem live_written (h : id ∈ deals.live) : id ∈ ((paginateBatch pages).1.foldl .upsertDeal deals).live :=
  DealTable.mem_live_foldl_upsertDeal.2 (Or.inl h)

/-- After the marking no deal is left that the source does not have, and no other deal was marked. -/
theorem mem_live_verified : id ∈ (markMissing ((paginateBatch pages).1.foldl .upsertDeal deals)
    (deals.live.filter fun externalId => !(sourceExternalIds pages).contains externalId) deletedAt).live ↔
      id ∈ ((paginateBatch pages).1.foldl .upsertDeal deals).live ∧ id ∈ sourceExternalIds pages := by
  rw [mem_live_markMissing]
  refine and_congr_right fun hlive => ?_
  simp only [List.mem_filter, Bool.not_eq_true', List.contains_eq_mem, decide_eq_false_iff_not, not_and, not_not]
  exact ⟨fun h => (mem_live_written hlive).elim h fun hsource => hsource, fun h _ => h⟩

/-- **The reconciliation is exact.** After a full sync without an error the deals that are not deleted are exactly the
deals of the source. A snapshot that is refused, because a page fails or because it is suspiciously small, marks no
deal. The parity is verified after the marking: when it fails, exactly the deals that the source does not have were
marked. -/
theorem snapshot_reconciled (deals : DealTable) (pages : List PageResult) (deletedAt : ℤ) :
    let r := syncDeals deals pages deletedAt
    (r.error = none → ∀ id, id ∈ r.deals.live ↔ id ∈ sourceExternalIds pages) ∧
      ((r.error = some .pagination ∨ ∃ source activeBefore, r.error = some (.tooSmall source activeBefore)) →
        ∀ id ∈ deals.live, id ∈ r.deals.live) ∧
      ((∃ source stored, r.error = some (.parity source stored)) → ∀ id ∈ deals.live,
        id ∈ r.deals.live ↔ id ∈ sourceExternalIds pages) := by
  intro r
  have hr : r = syncDeals deals pages deletedAt := rfl
  clear_value r
  unfold syncDeals at hr
  dsimp only at hr
  split_ifs at hr with hfailed hsmall hparity <;> subst hr
  · exact ⟨nofun, fun _ _ => live_written, nofun⟩
  · exact ⟨nofun, fun _ _ => live_written, nofun⟩
  · refine ⟨fun _ id => ⟨fun hlive => (mem_live_verified.1 hlive).2, fun hsource => ?_⟩, nofun, nofun⟩
    -- As many deals are left as the source has, and all of them are deals of the source.
    refine ((List.subperm_of_subset (DealTable.live_nodup _) ?_).perm_of_length_le hparity.ge).mem_iff.2 hsource
    exact fun _ hlive => (mem_live_verified.1 hlive).2
  · exact ⟨nofun, nofun, fun _ id hlive =>
      ⟨fun h => (mem_live_verified.1 h).2, fun h => mem_live_verified.2 ⟨live_written hlive, h⟩⟩⟩

namespace Sample

def storedDeals : DealTable := ⟨[⟨"2", none⟩, ⟨"3", none⟩], by decide⟩

end Sample

/-- A deal of an unknown stage is not written, and the parity fails after deal 3 was marked. -/
theorem parity_fails_after_marking :
    "3" ∈ Sample.storedDeals.live ∧
      (syncDeals Sample.storedDeals [.page [⟨"1", false⟩, ⟨"2", true⟩] false] 0).error = some (.parity 2 1) ∧
      "3" ∉ (syncDeals Sample.storedDeals [.page [⟨"1", false⟩, ⟨"2", true⟩] false] 0).deals.live := by
  refine ⟨by decide +kernel, by decide +kernel, by decide +kernel⟩

end AmoAnalytics.Amo
