import AmoAnalytics.Amo.DealTable
import AmoAnalytics.Amo.Reconcile

/-!
# The deals of a reconcile window

`syncRecentDeals` of `amo-sync.service.ts` reads the deals that changed in a window page by page, at most as many as
the setting allows. The last page is asked for with a smaller limit, and the source counts its pages by the limit of
the request: a smaller last page begins among the deals that were read before.
-/

namespace AmoAnalytics.Amo

/-! ## The source -/

/-- The page of a request, and whether a next page exists. -/
def servePage (records : List Lead) (page limit : ℕ) : List Lead × Bool :=
  ((records.drop ((page - 1) * limit)).take limit, decide (page * limit < records.length))

/-! ## The run -/

def maxPageLimit : ℕ := 250

def pageLimit (maxDeals : ℕ) : ℕ := min maxPageLimit maxDeals

/-- What the loop leaves: the deals that were written, in order, the last page and whether there is a next one. -/
structure RecentPages where
  processed : List Lead
  page : ℕ
  hasNextPage : Bool
  deriving DecidableEq

/-- The `while` loop. -/
def recentPages (records : List Lead) (maxDeals : ℕ) (pages : RecentPages) : RecentPages :=
  if pages.processed.length < maxDeals then
    let limit := min (pageLimit maxDeals) (maxDeals - pages.processed.length)
    match servePage records pages.page limit with
    | ([], _) => pages
    | (lead :: leads, hasNextPage) =>
      let processed := pages.processed ++ lead :: leads
      if hasNextPage then recentPages records maxDeals ⟨processed, pages.page + 1, true⟩
      else ⟨processed, pages.page, false⟩
  else pages
termination_by maxDeals - pages.processed.length
decreasing_by
  rw [List.length_append, List.length_cons]
  omega

inductive RecentError
  | exceeded (maxDeals : ℕ)
  | parity (source stored : ℕ)
  deriving DecidableEq

def RecentError.message : RecentError → String
  | .exceeded maxDeals => s!"Recent amoCRM deal reconciliation exceeded {maxDeals} records; cursor was not advanced"
  | .parity source stored => s!"Recent amoCRM deal reconciliation parity failed: source={source}, stored={stored}"

structure RecentDeals where
  processed : List Lead
  page : ℕ
  deals : DealTable
  error : Option RecentError

/-- `syncRecentDeals`. -/
def syncRecentDeals (records : List Lead) (maxDeals : ℕ) (deals : DealTable) : RecentDeals :=
  let pages := recentPages records maxDeals ⟨[], 1, false⟩
  let deals := pages.processed.foldl .upsertDeal deals
  let externalIds := (pages.processed.map (·.id)).dedup
  let storedDeals := deals.live.countP fun id => externalIds.contains id
  { processed := pages.processed, page := pages.page, deals
    error :=
      if pages.hasNextPage && decide (maxDeals ≤ pages.processed.length) then some (.exceeded maxDeals)
      else if storedDeals = externalIds.length then none
      else some (.parity externalIds.length storedDeals) }

/-- What the caller sees. -/
def RecentDeals.work (r : RecentDeals) : Except String (List (String × ℚ)) :=
  match r.error with
  | some error => .error error.message
  | none => .ok [("deals", r.processed.length), ("dealPages", r.page)]

/-- All deals of the window are written once; when there are too many, the run fails and the cursor of the connection
stays. -/
structure Complete (records : List Lead) (maxDeals : ℕ) (r : RecentDeals) : Prop where
  fits : records.length ≤ maxDeals → r.processed.Perm records ∧ r.error ≠ some (.exceeded maxDeals)
  exceeds : maxDeals < records.length → r.error = some (.exceeded maxDeals)
  cursor : maxDeals < records.length → ∀ newDate connection run, run.work = r.work →
    (reconcileRecentChanges newDate connection run).1.recentReconcileAt newDate = connection.recentReconcileAt newDate

/-! ## Full pages -/

section Loop

variable {records : List Lead} {maxDeals k : ℕ}

theorem pageLimit_pos (hmax : 0 < maxDeals) : 0 < pageLimit maxDeals :=
  lt_min (by decide) hmax

theorem pageLimit_le : pageLimit maxDeals ≤ maxDeals := min_le_right _ _

/-- The loop after `k` full pages. -/
def fullPages (records : List Lead) (maxDeals k : ℕ) : RecentPages :=
  ⟨records.take (pageLimit maxDeals * k), k + 1, decide (0 < k)⟩

theorem fullPages_length (h : pageLimit maxDeals * k ≤ records.length) :
    (fullPages records maxDeals k).processed.length = pageLimit maxDeals * k := by
  simp [fullPages, h]

/-- A page that is not empty. -/
theorem recentPages_step {pages : RecentPages} {limit : ℕ} (hmore : pages.processed.length < maxDeals)
    (hlimit : min (pageLimit maxDeals) (maxDeals - pages.processed.length) = limit) (hpos : 0 < limit)
    (hstart : (pages.page - 1) * limit < records.length) :
    recentPages records maxDeals pages =
      let processed := pages.processed ++ (records.drop ((pages.page - 1) * limit)).take limit
      if pages.page * limit < records.length then recentPages records maxDeals ⟨processed, pages.page + 1, true⟩
      else ⟨processed, pages.page, false⟩ := by
  rw [recentPages, if_pos hmore]
  dsimp only
  rw [hlimit]
  unfold servePage
  cases hpage : (records.drop ((pages.page - 1) * limit)).take limit with
  | nil =>
    have hlength := congrArg List.length hpage
    simp only [List.length_take, List.length_drop, List.length_nil] at hlength
    omega
  | cons lead leads => simp

theorem recentPages_stop {pages : RecentPages} (h : maxDeals ≤ pages.processed.length) :
    recentPages records maxDeals pages = pages := by
  rw [recentPages, if_neg h.not_gt]

/-- The request after `k` full pages. -/
theorem recentPages_at {limit : ℕ} (hread : pageLimit maxDeals * k ≤ records.length)
    (hmore : pageLimit maxDeals * k < maxDeals)
    (hlimit : min (pageLimit maxDeals) (maxDeals - pageLimit maxDeals * k) = limit) (hpos : 0 < limit)
    (hstart : k * limit < records.length) :
    recentPages records maxDeals (fullPages records maxDeals k) =
      let processed := records.take (pageLimit maxDeals * k) ++ (records.drop (k * limit)).take limit
      if (k + 1) * limit < records.length then recentPages records maxDeals ⟨processed, k + 2, true⟩
      else ⟨processed, k + 1, false⟩ := by
  have hlength := fullPages_length hread
  exact recentPages_step (hlength ▸ hmore) (hlength ▸ hlimit) hpos hstart

/-- A page of the full size continues the list. -/
theorem recentPages_full (hmax : 0 < maxDeals) (hread : pageLimit maxDeals * k < records.length)
    (hroom : pageLimit maxDeals * (k + 1) ≤ maxDeals) :
    recentPages records maxDeals (fullPages records maxDeals k) =
      if pageLimit maxDeals * (k + 1) < records.length then
        recentPages records maxDeals (fullPages records maxDeals (k + 1))
      else ⟨records, k + 1, false⟩ := by
  have hpos := pageLimit_pos hmax
  have hsucc : pageLimit maxDeals * (k + 1) = pageLimit maxDeals * k + pageLimit maxDeals := Nat.mul_succ _ _
  have htake : records.take (pageLimit maxDeals * k) ++
      (records.drop (k * pageLimit maxDeals)).take (pageLimit maxDeals) =
        records.take (pageLimit maxDeals * (k + 1)) := by
    rw [Nat.mul_comm k, hsucc, List.take_add]
  rw [recentPages_at hread.le (by omega) (min_eq_left (by omega)) hpos (by rwa [Nat.mul_comm]), htake,
    Nat.mul_comm (k + 1)]
  dsimp only
  split_ifs with hnext
  · simp [fullPages]
  · rw [List.take_of_length_le (not_lt.1 hnext)]

/-- All pages before the last one are full. -/
theorem recentPages_start (hmax : 0 < maxDeals) : ∀ k, pageLimit maxDeals * k ≤ maxDeals →
    pageLimit maxDeals * k < records.length →
    recentPages records maxDeals ⟨[], 1, false⟩ = recentPages records maxDeals (fullPages records maxDeals k)
  | 0, _, _ => by simp [fullPages]
  | k + 1, hroom, hread => by
    have hsucc : pageLimit maxDeals * (k + 1) = pageLimit maxDeals * k + pageLimit maxDeals := Nat.mul_succ _ _
    rw [recentPages_start hmax k (by omega) (by omega), recentPages_full hmax (by omega) hroom, if_pos hread]

/-- The records fit in full pages. -/
theorem recentPages_fits (hmax : 0 < maxDeals)
    (hfits : records.length ≤ pageLimit maxDeals * (maxDeals / pageLimit maxDeals)) :
    (recentPages records maxDeals ⟨[], 1, false⟩).processed = records ∧
      (recentPages records maxDeals ⟨[], 1, false⟩).hasNextPage = false := by
  have hpos := pageLimit_pos hmax
  rcases Nat.eq_zero_or_pos records.length with hempty | hnonempty
  · obtain rfl := List.eq_nil_of_length_eq_zero hempty
    rw [recentPages, if_pos (by simpa using hmax)]
    simp [servePage]
  · -- The last page is the one with the last record.
    have hle := Nat.div_mul_le_self (records.length - 1) (pageLimit maxDeals)
    have hlt := Nat.lt_div_mul_add hpos (a := records.length - 1)
    generalize hk : (records.length - 1) / pageLimit maxDeals = k at hle hlt
    rw [Nat.mul_comm] at hle hlt
    have hsucc : pageLimit maxDeals * (k + 1) = pageLimit maxDeals * k + pageLimit maxDeals := Nat.mul_succ _ _
    have hroom : pageLimit maxDeals * (k + 1) ≤ maxDeals := by
      have hpages : k + 1 ≤ maxDeals / pageLimit maxDeals := by
        by_contra hfew
        have hmul := Nat.mul_le_mul_left (pageLimit maxDeals) (not_lt.1 hfew)
        omega
      exact (Nat.mul_le_mul_left _ hpages).trans (Nat.mul_div_le _ _)
    rw [recentPages_start hmax k (by omega) (by omega), recentPages_full hmax (by omega) hroom, if_neg (by omega)]
    exact ⟨rfl, rfl⟩

/-- The page after all full pages, when there is room for a smaller one only. -/
theorem recentPages_last (hmax : 0 < maxDeals) {q r : ℕ} (hq : maxDeals / pageLimit maxDeals = q)
    (hr : maxDeals % pageLimit maxDeals = r) (hpos : 0 < r) (hread : pageLimit maxDeals * q < records.length) :
    recentPages records maxDeals ⟨[], 1, false⟩ =
      let processed := records.take (pageLimit maxDeals * q) ++ (records.drop (q * r)).take r
      if (q + 1) * r < records.length then recentPages records maxDeals ⟨processed, q + 2, true⟩
      else ⟨processed, q + 1, false⟩ := by
  have hsplit := Nat.div_add_mod maxDeals (pageLimit maxDeals)
  have hlt : r < pageLimit maxDeals := hr ▸ Nat.mod_lt _ (pageLimit_pos hmax)
  rw [hq, hr] at hsplit
  rw [recentPages_start hmax q (by omega) hread]
  refine recentPages_at hread.le (by omega) (by omega) hpos ?_
  calc q * r ≤ q * pageLimit maxDeals := Nat.mul_le_mul_left q hlt.le
    _ = pageLimit maxDeals * q := Nat.mul_comm _ _
    _ < records.length := hread

/-- More records than allowed are never read to the end. -/
theorem recentPages_exceeds (hmax : 0 < maxDeals) (hmore : maxDeals < records.length) :
    (recentPages records maxDeals ⟨[], 1, false⟩).hasNextPage = true ∧
      (recentPages records maxDeals ⟨[], 1, false⟩).processed.length = maxDeals := by
  have hsplit := Nat.div_add_mod maxDeals (pageLimit maxDeals)
  have hlt := Nat.mod_lt maxDeals (pageLimit_pos hmax)
  have hone : 0 < maxDeals / pageLimit maxDeals := Nat.div_pos pageLimit_le (pageLimit_pos hmax)
  generalize hq : maxDeals / pageLimit maxDeals = q at hsplit hone
  generalize hr : maxDeals % pageLimit maxDeals = r at hsplit hlt
  rcases Nat.eq_zero_or_pos r with rfl | hpos
  · have hlength : (fullPages records maxDeals q).processed.length = _ := fullPages_length (by omega)
    rw [recentPages_start hmax q (by omega) (by omega), recentPages_stop (by omega)]
    exact ⟨decide_eq_true hone, by omega⟩
  · have hpage : (q + 1) * r ≤ maxDeals := by
      have hmul := Nat.mul_le_mul_left q hlt.le
      have hcomm := Nat.mul_comm q (pageLimit maxDeals)
      have hsucc := Nat.add_one_mul q r
      omega
    have hstart := Nat.add_one_mul q r
    have hlength : (records.take (pageLimit maxDeals * q) ++ (records.drop (q * r)).take r).length = maxDeals := by
      simp only [List.length_append, List.length_take, List.length_drop]
      omega
    rw [recentPages_last hmax hq hr hpos (by omega)]
    dsimp only
    rw [if_pos (by omega), recentPages_stop hlength.ge]
    exact ⟨rfl, hlength⟩

/-- The smaller last page begins with a record that was read before. -/
theorem recentPages_repeats (hmax : 0 < maxDeals)
    (hlast : pageLimit maxDeals * (maxDeals / pageLimit maxDeals) < records.length)
    (hfits : records.length ≤ maxDeals) :
    ¬ (recentPages records maxDeals ⟨[], 1, false⟩).processed.Nodup := by
  have hsplit := Nat.div_add_mod maxDeals (pageLimit maxDeals)
  have hlt := Nat.mod_lt maxDeals (pageLimit_pos hmax)
  have hone : 0 < maxDeals / pageLimit maxDeals := Nat.div_pos pageLimit_le (pageLimit_pos hmax)
  generalize hq : maxDeals / pageLimit maxDeals = q at hsplit hone hlast
  generalize hr : maxDeals % pageLimit maxDeals = r at hsplit hlt
  have hpos : 0 < r := by omega
  have hbefore : q * r < pageLimit maxDeals * q := by
    rw [Nat.mul_comm]
    exact Nat.mul_lt_mul_of_pos_right hlt hone
  have hrepeats : ¬ (records.take (pageLimit maxDeals * q) ++ (records.drop (q * r)).take r).Nodup := by
    intro hnodup
    have hindex : q * r < records.length := by omega
    have hread : records[q * r] ∈ records.take (pageLimit maxDeals * q) :=
      List.mem_take_iff_getElem.2 ⟨q * r, by omega, rfl⟩
    have hagain : records[q * r] ∈ (records.drop (q * r)).take r :=
      List.mem_take_iff_getElem.2 ⟨0, by simp only [List.length_drop]; omega, by simp⟩
    exact (List.nodup_append.1 hnodup).2.2 _ hread _ hagain rfl
  have hlength : (q + 1) * r < records.length →
      (records.take (pageLimit maxDeals * q) ++ (records.drop (q * r)).take r).length = maxDeals := by
    intro hnext
    have hsucc := Nat.add_one_mul q r
    simp only [List.length_append, List.length_take, List.length_drop]
    omega
  rw [recentPages_last hmax hq hr hpos hlast]
  dsimp only
  split_ifs with hnext
  · rw [recentPages_stop (hlength hnext).ge]
    exact hrepeats
  · exact hrepeats

end Loop

/-! ## Completeness -/

/-- A run that fails leaves the cursor. -/
theorem reconcile_keeps_cursor (newDate : String → Option ℤ) (connection : AmoConnection) (run : ReconcileRun)
    (message : String) (h : run.work = .error message) :
    (reconcileRecentChanges newDate connection run).1.recentReconcileAt newDate =
      connection.recentReconcileAt newDate := by
  unfold reconcileRecentChanges
  dsimp only
  split_ifs
  · rfl
  · rfl
  · rw [h]
    exact reconcileFailed_cursor newDate connection run message

theorem not_complete {maxDeals : ℕ} (hmax : 0 < maxDeals) {records : List Lead}
    (hrecords : (records.map (·.id)).Nodup) (deals : DealTable)
    (hlast : pageLimit maxDeals * (maxDeals / pageLimit maxDeals) < records.length)
    (hfits : records.length ≤ maxDeals) : ¬ Complete records maxDeals (syncRecentDeals records maxDeals deals) := by
  intro h
  refine recentPages_repeats hmax hlast hfits ?_
  exact (h.fits hfits).1.nodup_iff.2 (List.Nodup.of_map _ hrecords)

namespace Sample

/-- The `n`-th deal of a window. -/
def lead (n : ℕ) : Lead := ⟨String.ofList (List.replicate n 'x'), true⟩

theorem leads_nodup (n : ℕ) : (((List.range n).map lead).map (·.id)).Nodup := by
  rw [List.map_map]
  refine List.nodup_range.map fun m n h => ?_
  have hlist : List.replicate m 'x' = List.replicate n 'x' := String.ofList_injective h
  simpa using congrArg List.length hlist

end Sample

end AmoAnalytics.Amo
