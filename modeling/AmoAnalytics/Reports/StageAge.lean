import AmoAnalytics.Lib.FirstLeast
import AmoAnalytics.Reports.ForecastModel

/-!
# The age of a stage

How long a deal is in its stage, for the revenue forecast. A deal of the past is measured by its stage intervals; a
current one by the transitions of the last 180 days, and from its creation where they do not show its entry.
-/

namespace AmoAnalytics.Reports.Forecast

/-! ## The rows -/

/-- A row of `factStageTransition`. -/
structure StageHistoryRow where
  dealId : String
  fromStageId : Option String
  toStageId : String
  movedAt : ℤ

/-- A row of `factDealStageInterval`. -/
structure StageIntervalRow where
  dealId : String
  stageId : String
  enteredAt : ℤ
  exitedAt : Option ℤ
deriving DecidableEq

structure StageFacts where
  transitions : List StageHistoryRow
  intervals : List StageIntervalRow

/-- The deal of a forecast, as far as its age is read. -/
structure OpenDeal where
  id : String
  stageId : String
  createdAt : ℤ

/-! ## `revenue-forecast-engine.ts` -/

section Engine

variable {K : Type} [Field K] [LinearOrder K] (facts : StageFacts) (stageIds : List String)

/-- `addDays(now, -180)`. -/
def trainingFrom (now : ℤ) : ℤ := now - 180 * DAY_MS

/-- The entries that `buildStageEpisodes` loads. -/
def stageEntries (now : ℤ) : List StageHistoryRow :=
  facts.transitions.filter fun row =>
    stageIds.contains row.toStageId && decide (trainingFrom now ≤ row.movedAt) && decide (row.movedAt ≤ now)

/-- `latestEntryByDealStage`: in the order of time the last entry under a key is the latest. -/
def latestEntryByDealStage (now : ℤ) (dealId stageId : String) : Option ℤ :=
  (((stageEntries facts stageIds now).filter fun entry => entry.dealId = dealId && entry.toStageId = stageId).map
    StageHistoryRow.movedAt).max?

/-- `elapsedStageDays` of a current deal. -/
def elapsedStageDays (deal : OpenDeal) (now : ℤ) : K :=
  durationDays ((latestEntryByDealStage facts stageIds now deal.id deal.stageId).getD deal.createdAt) now

/-- The cutoffs of the months of a cohort, the earliest first. -/
structure CohortWindows where
  cutoffs : List ℤ
  sorted : cutoffs.Pairwise (· ≤ ·)

theorem CohortWindows.exists_earliest (windows : CohortWindows) {t : ℤ} (h : t ∈ windows.cutoffs) :
    ∃ earliest, windows.cutoffs.head? = some earliest ∧ earliest ≤ t := by
  obtain ⟨cutoffs, hsorted⟩ := windows
  cases cutoffs with
  | nil => exact absurd h List.not_mem_nil
  | cons earliest cutoffs =>
    refine ⟨earliest, rfl, ?_⟩
    rcases List.mem_cons.1 h with rfl | hlater
    · exact le_rfl
    · exact (List.pairwise_cons.1 hsorted).1 t hlater

theorem CohortWindows.exists_latest (windows : CohortWindows) {t : ℤ} (h : t ∈ windows.cutoffs) :
    ∃ latest, windows.cutoffs.getLast? = some latest ∧ t ≤ latest := by
  obtain ⟨cutoffs, hsorted⟩ := windows
  induction cutoffs using List.reverseRecOn with
  | nil => exact absurd h List.not_mem_nil
  | append_singleton cutoffs latest _ =>
    refine ⟨latest, List.getLast?_concat, ?_⟩
    rcases List.mem_append.1 h with hearlier | hlast
    · exact (List.pairwise_append.1 hsorted).2.2 t hearlier latest (List.mem_singleton_self _)
    · exact (List.mem_singleton.1 hlast).le

/-- The intervals that `buildAssemblyMonthlyCohort` loads. -/
def cohortIntervals (windows : CohortWindows) : List StageIntervalRow :=
  match windows.cutoffs.head?, windows.cutoffs.getLast? with
  | some earliestCutoff, some latestCutoff => facts.intervals.filter fun interval =>
    stageIds.contains interval.stageId && decide (interval.enteredAt ≤ latestCutoff) &&
      interval.exitedAt.all (earliestCutoff < ·)
  | _, _ => []

/-- The interval of a deal at a cutoff, `activeByDeal`. -/
def activeByDeal (intervals : List StageIntervalRow) (cutoffAt : ℤ) (dealId : String) : Option StageIntervalRow :=
  ((intervals.filter fun interval => interval.dealId = dealId && !decide (cutoffAt < interval.enteredAt) &&
    !interval.exitedAt.any (· ≤ cutoffAt))).foldl (FirstLeast.keep fun interval => -interval.enteredAt) none

/-- `elapsedDays` of a deal of the past. -/
def cohortElapsedDays (windows : CohortWindows) (cutoffAt : ℤ) (dealId : String) : Option K :=
  (activeByDeal (cohortIntervals facts stageIds windows) cutoffAt dealId).map fun interval =>
    durationDays interval.enteredAt cutoffAt

end Engine

/-! ## Histories -/

structure StageEntry where
  stageId : String
  enteredAt : ℤ

/-- The stages of a deal in their order, the first one since its creation. -/
structure StageHistory where
  dealId : String
  createdAt : ℤ
  firstStageId : String
  moves : List StageEntry
  sorted : (⟨firstStageId, createdAt⟩ :: moves).Pairwise (·.enteredAt ≤ ·.enteredAt)

namespace StageHistory

variable (history : StageHistory)

def entries : List StageEntry := ⟨history.firstStageId, history.createdAt⟩ :: history.moves

/-- The rows of the transitions, each from the stage before it. -/
def transitionsFrom (dealId : String) : String → List StageEntry → List StageHistoryRow
  | _, [] => []
  | stageId, move :: moves =>
    ⟨dealId, some stageId, move.stageId, move.enteredAt⟩ :: transitionsFrom dealId move.stageId moves

def transitions : List StageHistoryRow := transitionsFrom history.dealId history.firstStageId history.moves

/-- The interval of each entry lasts up to the next one. -/
def intervalsOf (dealId : String) : List StageEntry → List StageIntervalRow
  | [] => []
  | entry :: entries =>
    ⟨dealId, entry.stageId, entry.enteredAt, entries.head?.map StageEntry.enteredAt⟩ :: intervalsOf dealId entries

/-- The rows of `refreshFactStageIntervals`: the first stage has one if the deal was created before its first move. -/
def intervals : List StageIntervalRow :=
  if history.moves.head?.all (history.createdAt < ·.enteredAt) then intervalsOf history.dealId history.entries
  else intervalsOf history.dealId history.moves

/-- The latest entry of the deal up to an instant. -/
def entryAt (t : ℤ) : StageEntry :=
  ((history.entries.filter (·.enteredAt ≤ t)).getLast?).getD ⟨history.firstStageId, history.createdAt⟩

/-- The deal as it is at an instant. -/
def dealAt (t : ℤ) : OpenDeal := ⟨history.dealId, (history.entryAt t).stageId, history.createdAt⟩

/-- The rows of the deal are those of its history. -/
structure RecordedIn (facts : StageFacts) : Prop where
  transitions : ∀ row, row ∈ facts.transitions ∧ row.dealId = history.dealId ↔ row ∈ history.transitions
  intervals : ∀ row, row ∈ facts.intervals ∧ row.dealId = history.dealId ↔ row ∈ history.intervals

end StageHistory

/-! ## The entry of a current deal -/

namespace StageHistory

variable {history : StageHistory} {t : ℤ}

theorem mem_transitionsFrom {dealId stageId : String} {moves : List StageEntry} {row : StageHistoryRow} :
    row ∈ transitionsFrom dealId stageId moves → row.dealId = dealId ∧
      ⟨row.toStageId, row.movedAt⟩ ∈ moves := by
  induction moves generalizing stageId with
  | nil => exact fun h => absurd h List.not_mem_nil
  | cons move moves ih =>
    intro h
    rcases List.mem_cons.1 h with rfl | hlater
    · exact ⟨rfl, List.mem_cons_self⟩
    · exact ⟨(ih hlater).1, List.mem_cons_of_mem _ (ih hlater).2⟩

theorem exists_transition (dealId stageId : String) {moves : List StageEntry} {move : StageEntry}
    (h : move ∈ moves) : ∃ fromStageId, ⟨dealId, fromStageId, move.stageId,
      move.enteredAt⟩ ∈ transitionsFrom dealId stageId moves := by
  induction moves generalizing stageId with
  | nil => exact absurd h List.not_mem_nil
  | cons first moves ih =>
    rcases List.mem_cons.1 h with rfl | hlater
    · exact ⟨_, List.mem_cons_self⟩
    · obtain ⟨fromStageId, hmem⟩ := ih first.stageId hlater
      exact ⟨fromStageId, List.mem_cons_of_mem _ hmem⟩

/-- An instant cuts a history at its latest entry. -/
structure Cut (entries : List StageEntry) (t : ℤ) (before : List StageEntry) (entry : StageEntry)
    (after : List StageEntry) : Prop where
  split : entries = before ++ entry :: after
  before_le : ∀ other ∈ before, other.enteredAt ≤ entry.enteredAt
  entry_le : entry.enteredAt ≤ t
  after_lt : ∀ other ∈ after, t < other.enteredAt

theorem filter_cons_entry {first : StageEntry} (hfirst : first.enteredAt ≤ t) (moves : List StageEntry) :
    (first :: moves).filter (·.enteredAt ≤ t) = first :: moves.filter (·.enteredAt ≤ t) :=
  List.filter_cons_of_pos (decide_eq_true hfirst)

/-- The entries up to an instant end with the latest one. -/
theorem exists_cut {first : StageEntry} {moves : List StageEntry}
    (hsorted : (first :: moves).Pairwise (·.enteredAt ≤ ·.enteredAt)) (hfirst : first.enteredAt ≤ t) :
    ∃ before entry after, Cut (first :: moves) t before entry after ∧
      ((first :: moves).filter (·.enteredAt ≤ t)).getLast? = some entry := by
  induction moves generalizing first with
  | nil =>
    refine ⟨[], first, [], ⟨rfl, by simp, hfirst, by simp⟩, ?_⟩
    rw [filter_cons_entry hfirst]
    rfl
  | cons move moves ih =>
    rw [filter_cons_entry hfirst]
    obtain ⟨hle, hrest⟩ := List.pairwise_cons.1 hsorted
    rcases le_or_gt move.enteredAt t with hmove | hmove
    · obtain ⟨before, entry, after, hcut, hlast⟩ := ih hrest hmove
      have hmem : entry ∈ move :: moves := by
        rw [hcut.split]
        exact List.mem_append_right _ List.mem_cons_self
      refine ⟨first :: before, entry, after, ⟨congrArg (first :: ·) hcut.split, fun other hother => ?_, hcut.entry_le,
        hcut.after_lt⟩, ?_⟩
      · rcases List.mem_cons.1 hother with rfl | hlater
        · exact hle entry hmem
        · exact hcut.before_le other hlater
      · rw [List.getLast?_cons, hlast]
        rfl
    · have hafter : ∀ other ∈ move :: moves, t < other.enteredAt := fun other hother => by
        rcases List.mem_cons.1 hother with rfl | hlater
        · exact hmove
        · exact hmove.trans_le ((List.pairwise_cons.1 hrest).1 other hlater)
      have hnone : (move :: moves).filter (·.enteredAt ≤ t) = [] :=
        List.filter_eq_nil_iff.2 fun other hother h => absurd (of_decide_eq_true h) (not_le.2 (hafter other hother))
      refine ⟨[], first, move :: moves, ⟨rfl, by simp, hfirst, hafter⟩, ?_⟩
      rw [hnone]
      rfl

theorem exists_cut_entryAt (hcreated : history.createdAt ≤ t) :
    ∃ before after, Cut history.entries t before (history.entryAt t) after := by
  obtain ⟨before, entry, after, hcut, hlast⟩ := exists_cut history.sorted hcreated
  refine ⟨before, after, ?_⟩
  unfold entryAt entries
  rw [hlast]
  exact hcut

/-- The latest entry by the rows: that of the history, where the window reaches it, and none otherwise. -/
theorem latestEntry_eq {facts : StageFacts} {stageIds : List String} (hfacts : history.RecordedIn facts)
    (hcreated : history.createdAt ≤ t) (hstage : (history.entryAt t).stageId ∈ stageIds) :
    (latestEntryByDealStage facts stageIds t history.dealId (history.entryAt t).stageId).getD history.createdAt =
      if trainingFrom t ≤ (history.entryAt t).enteredAt then (history.entryAt t).enteredAt else history.createdAt :=
        by
  obtain ⟨before, after, hcut⟩ := exists_cut_entryAt hcreated
  set entry := history.entryAt t with hentry
  set times := ((stageEntries facts stageIds t).filter fun row =>
    row.dealId = history.dealId && row.toStageId = entry.stageId).map StageHistoryRow.movedAt with htimes
  -- What is loaded under the key is an entry of the history into the stage, in the window.
  have hloaded : ∀ movedAt, movedAt ∈ times ↔ ⟨entry.stageId, movedAt⟩ ∈ history.moves ∧ trainingFrom t ≤ movedAt ∧
      movedAt ≤ t := by
    intro movedAt
    rw [htimes, List.mem_map]
    constructor
    · rintro ⟨row, hrow, rfl⟩
      obtain ⟨hwindow, hkey⟩ := List.mem_filter.1 hrow
      obtain ⟨hmem, hbounds⟩ := List.mem_filter.1 hwindow
      simp only [Bool.and_eq_true, decide_eq_true_eq] at hkey hbounds
      obtain ⟨-, hmove⟩ := mem_transitionsFrom ((hfacts.transitions row).1 ⟨hmem, hkey.1⟩)
      exact ⟨hkey.2 ▸ hmove, hbounds.1.2, hbounds.2⟩
    · rintro ⟨hmove, hfrom, hto⟩
      obtain ⟨fromStageId, hrow⟩ := exists_transition history.dealId history.firstStageId hmove
      obtain ⟨hmem, -⟩ := (hfacts.transitions _).2 hrow
      refine ⟨_, List.mem_filter.2 ⟨List.mem_filter.2 ⟨hmem, ?_⟩, ?_⟩, rfl⟩
      · simp [hstage, hfrom, hto]
      · simp
  have hlatest : ∀ movedAt ∈ times, movedAt ≤ entry.enteredAt := by
    intro movedAt hmem
    obtain ⟨hmove, -, hto⟩ := (hloaded movedAt).1 hmem
    have hin : ⟨entry.stageId, movedAt⟩ ∈ before ++ entry :: after := hcut.split ▸ List.mem_cons_of_mem _ hmove
    rcases List.mem_append.1 hin with hbefore | hlater
    · exact hcut.before_le _ hbefore
    · rcases List.mem_cons.1 hlater with heq | hafter
      · exact (congrArg StageEntry.enteredAt heq).le
      · exact absurd hto (not_le.2 (hcut.after_lt _ hafter))
  change times.max?.getD history.createdAt = _
  split_ifs with hwindow
  · cases before with
    | nil =>
      -- The deal has not moved yet.
      obtain ⟨hfirst, hmoves⟩ := List.cons.inj hcut.split
      have hnone : times = [] := List.eq_nil_iff_forall_not_mem.2 fun movedAt hmem => by
        obtain ⟨hmove, -, hto⟩ := (hloaded movedAt).1 hmem
        exact absurd hto (not_le.2 (hcut.after_lt _ (hmoves ▸ hmove)))
      rw [hnone, ← hfirst]
      rfl
    | cons first before =>
      obtain ⟨-, hmoves⟩ := List.cons.inj hcut.split
      have hmem : entry.enteredAt ∈ times := (hloaded _).2
        ⟨hmoves ▸ List.mem_append_right _ List.mem_cons_self, hwindow, hcut.entry_le⟩
      rw [List.max?_eq_some_iff.2 ⟨hmem, hlatest⟩]
      rfl
  · have hnone : times = [] := List.eq_nil_iff_forall_not_mem.2 fun movedAt hmem =>
      hwindow (((hloaded movedAt).1 hmem).2.1.trans (hlatest movedAt hmem))
    rw [hnone]
    rfl

/-! ## The interval of a deal of the past -/

theorem mem_intervalsOf_append {dealId : String} {before after : List StageEntry} {entry : StageEntry} :
    ⟨dealId, entry.stageId, entry.enteredAt, after.head?.map StageEntry.enteredAt⟩ ∈
      intervalsOf dealId (before ++ entry :: after) := by
  induction before with
  | nil => exact List.mem_cons_self
  | cons first before ih => exact List.mem_cons_of_mem _ ih

theorem intervalsOf_enteredAt {dealId : String} {entries : List StageEntry} {row : StageIntervalRow}
    (h : row ∈ intervalsOf dealId entries) : row.dealId = dealId ∧ ∃ entry ∈ entries,
      row.enteredAt = entry.enteredAt := by
  induction entries with
  | nil => exact absurd h List.not_mem_nil
  | cons entry entries ih =>
    rcases List.mem_cons.1 h with rfl | hlater
    · exact ⟨rfl, entry, List.mem_cons_self, rfl⟩
    · obtain ⟨hdeal, other, hother, heq⟩ := ih hlater
      exact ⟨hdeal, other, List.mem_cons_of_mem _ hother, heq⟩

/-- The interval that contains an instant is that of the latest entry. -/
theorem intervalsOf_active {dealId : String} {before after : List StageEntry} {entry : StageEntry}
    (hbefore : ∀ other ∈ before, other.enteredAt ≤ t) (hentry : entry.enteredAt ≤ t)
    (hafter : ∀ other ∈ after, t < other.enteredAt) {row : StageIntervalRow}
    (h : row ∈ intervalsOf dealId (before ++ entry :: after)) (hentered : row.enteredAt ≤ t)
    (hexited : row.exitedAt.any (· ≤ t) = false) : row.enteredAt = entry.enteredAt := by
  induction before with
  | nil =>
    rcases List.mem_cons.1 h with rfl | hlater
    · rfl
    · obtain ⟨-, other, hother, heq⟩ := intervalsOf_enteredAt hlater
      exact absurd (heq ▸ hentered) (not_le.2 (hafter other hother))
  | cons first before ih =>
    have hrest : ∀ other ∈ before, other.enteredAt ≤ t := fun other hother =>
      hbefore other (List.mem_cons_of_mem _ hother)
    rcases List.mem_cons.1 h with rfl | hlater
    · cases before with
      | nil => exact absurd hexited (by simp [hentry])
      | cons next before => exact absurd hexited (by simp [hrest next List.mem_cons_self])
    · exact ih hrest hlater

/-- The rows of a history, with or without the first stage, are cut where the history is. -/
theorem intervals_cut (hcreated : history.createdAt ≤ t) : ∃ before after,
    history.intervals = intervalsOf history.dealId (before ++ history.entryAt t :: after) ∧
      (∀ other ∈ before, other.enteredAt ≤ t) ∧ (history.entryAt t).enteredAt ≤ t ∧
      ∀ other ∈ after, t < other.enteredAt := by
  obtain ⟨before, after, hcut⟩ := exists_cut_entryAt hcreated
  have hbefore : ∀ other ∈ before, other.enteredAt ≤ t := fun other hother =>
    (hcut.before_le other hother).trans hcut.entry_le
  unfold intervals
  split_ifs with hfirst
  · exact ⟨before, after, congrArg _ hcut.split, hbefore, hcut.entry_le, hcut.after_lt⟩
  · cases before with
    | nil =>
      -- The first move is not before the creation, so the deal has moved.
      obtain ⟨-, hmoves⟩ := List.cons.inj hcut.split
      refine absurd ?_ hfirst
      cases hhead : history.moves.head? with
      | none => rfl
      | some move =>
        have hmem : move ∈ after := hmoves ▸ List.mem_of_mem_head? hhead
        exact decide_eq_true (hcreated.trans_lt (hcut.after_lt move hmem))
    | cons first before =>
      obtain ⟨-, hmoves⟩ := List.cons.inj hcut.split
      exact ⟨before, after, congrArg _ hmoves, fun other hother => hbefore other (List.mem_cons_of_mem _ hother),
        hcut.entry_le, hcut.after_lt⟩

/-- A deal of the past is measured from its latest entry. -/
theorem cohortElapsedDays_eq {K : Type} [Field K] [LinearOrder K] {facts : StageFacts} {stageIds : List String}
    (hfacts : history.RecordedIn facts) (hcreated : history.createdAt ≤ t)
    (hstage : (history.entryAt t).stageId ∈ stageIds) {windows : CohortWindows} (ht : t ∈ windows.cutoffs) :
    cohortElapsedDays (K := K) facts stageIds windows t history.dealId =
      some (durationDays (history.entryAt t).enteredAt t) := by
  obtain ⟨before, after, hrows, hbefore, hentry, hafter⟩ := intervals_cut hcreated
  set entry := history.entryAt t with hentryAt
  set row : StageIntervalRow := ⟨history.dealId, entry.stageId, entry.enteredAt, after.head?.map StageEntry.enteredAt⟩
    with hrow
  set rows := (cohortIntervals facts stageIds windows).filter fun interval =>
    interval.dealId = history.dealId && !decide (t < interval.enteredAt) && !interval.exitedAt.any
      (· ≤ t) with hactive
  obtain ⟨hmem, hdeal⟩ := (hfacts.intervals row).2 (hrows ▸ mem_intervalsOf_append)
  have hexit : ∀ x, (after.head?.map StageEntry.enteredAt) = some x → t < x := by
    intro x hx
    obtain ⟨other, hother, rfl⟩ := Option.map_eq_some_iff.1 hx
    exact hafter other (List.mem_of_mem_head? hother)
  have hloaded : row ∈ cohortIntervals facts stageIds windows := by
    obtain ⟨earliest, hearliest, hle⟩ := windows.exists_earliest ht
    obtain ⟨latest, hlatest, hge⟩ := windows.exists_latest ht
    unfold cohortIntervals
    rw [hearliest, hlatest]
    refine List.mem_filter.2 ⟨hmem, ?_⟩
    simp only [hrow, Bool.and_eq_true, decide_eq_true_eq, List.contains_iff_mem]
    refine ⟨⟨hstage, hentry.trans hge⟩, (Option.all_eq_true _ _).2 fun x hx => decide_eq_true (hle.trans_lt
      (hexit x hx))⟩
  have hin : row ∈ rows := by
    refine List.mem_filter.2 ⟨hloaded, ?_⟩
    simp only [hrow, Bool.and_eq_true, decide_eq_true_eq, Bool.not_eq_true', decide_eq_false_iff_not, not_lt,
      Option.any_eq_false]
    exact ⟨⟨trivial, hentry⟩, fun x hx => by simpa using hexit x hx⟩
  have hall : ∀ other ∈ rows, other.enteredAt = entry.enteredAt := by
    intro other hother
    obtain ⟨hcohort, hactiveAt⟩ := List.mem_filter.1 hother
    simp only [Bool.and_eq_true, decide_eq_true_eq, Bool.not_eq_true', decide_eq_false_iff_not, not_lt] at hactiveAt
    have hfact : other ∈ facts.intervals := by
      unfold cohortIntervals at hcohort
      split at hcohort
      · exact (List.mem_filter.1 hcohort).1
      · exact absurd hcohort List.not_mem_nil
    exact intervalsOf_active hbefore hentry hafter
      (hrows ▸ (hfacts.intervals other).1 ⟨hfact, hactiveAt.1.1⟩) hactiveAt.1.2 hactiveAt.2
  unfold cohortElapsedDays activeByDeal
  rw [← hactive]
  cases hfold : rows.foldl (FirstLeast.keep fun interval => -interval.enteredAt) none with
  | none =>
    rw [FirstLeast.foldl_keep_none.1 hfold] at hin
    exact absurd hin List.not_mem_nil
  | some found =>
    obtain ⟨first, last, hsplit, -⟩ := FirstLeast.foldl_keep_some hfold
    have hfound := hall found (hsplit ▸ List.mem_append_right _ List.mem_cons_self)
    rw [Option.map_some, hfound]

end StageHistory

/-! ## The two measures -/

section Measures

variable {K : Type} [Field K] [LinearOrder K] [IsStrictOrderedRing K]

theorem durationDays_inj {a b t : ℤ} (ha : a ≤ t) (hb : b ≤ t) :
    durationDays a t = (durationDays b t : K) ↔ a = b := by
  refine ⟨fun h => ?_, fun h => by rw [h]⟩
  have hday : (0 : K) < ((DAY_MS : ℤ) : K) := by
    unfold DAY_MS
    norm_num
  have hnonneg : ∀ x : ℤ, x ≤ t → (0 : K) ≤ ((t - x : ℤ) : K) / ((DAY_MS : ℤ) : K) := fun x hx =>
    div_nonneg (Int.cast_nonneg (sub_nonneg.2 hx)) hday.le
  unfold durationDays at h
  rw [max_eq_right (hnonneg a ha), max_eq_right (hnonneg b hb), div_left_inj' hday.ne', Int.cast_inj] at h
  omega

/-- **The age of a stage.** A current deal is measured from its latest entry, and as a deal of the past would be at
the same instant, if and only if the entry is in the last 180 days or is the creation of the deal. -/
theorem stage_age (history : StageHistory) (facts : StageFacts) (hfacts : history.RecordedIn facts)
    (stageIds : List String) (now : ℤ) (hcreated : history.createdAt ≤ now)
    (hstage : (history.entryAt now).stageId ∈ stageIds) :
    ((elapsedStageDays facts stageIds (history.dealAt now) now : K) =
        durationDays (history.entryAt now).enteredAt now ∧
      ∀ windows : CohortWindows, now ∈ windows.cutoffs →
        cohortElapsedDays facts stageIds windows now history.dealId =
          some (elapsedStageDays facts stageIds (history.dealAt now) now : K)) ↔
      trainingFrom now ≤ (history.entryAt now).enteredAt ∨ history.createdAt = (history.entryAt now).enteredAt := by
  have hentry : (history.entryAt now).enteredAt ≤ now := by
    obtain ⟨before, after, hcut⟩ := history.exists_cut_entryAt hcreated
    exact hcut.entry_le
  have hmeasure : (elapsedStageDays facts stageIds (history.dealAt now) now : K) = durationDays
      (if trainingFrom now ≤ (history.entryAt now).enteredAt then (history.entryAt now).enteredAt
        else history.createdAt) now :=
    congrArg (durationDays · now) (StageHistory.latestEntry_eq hfacts hcreated hstage)
  have hpast : ∀ windows : CohortWindows, now ∈ windows.cutoffs →
      cohortElapsedDays facts stageIds windows now history.dealId =
        some (durationDays (history.entryAt now).enteredAt now : K) := fun windows hwindow =>
    StageHistory.cohortElapsedDays_eq hfacts hcreated hstage hwindow
  have hsame : (elapsedStageDays facts stageIds (history.dealAt now) now : K) =
      durationDays (history.entryAt now).enteredAt now ↔
        trainingFrom now ≤ (history.entryAt now).enteredAt ∨
          history.createdAt = (history.entryAt now).enteredAt := by
    rw [hmeasure]
    split_ifs with hwindow
    · exact iff_of_true rfl (.inl hwindow)
    · rw [durationDays_inj hcreated hentry, or_iff_right hwindow]
  rw [← hsame]
  exact ⟨And.left, fun h => ⟨h, fun windows hwindow => (hpast windows hwindow).trans (congrArg some h.symm)⟩⟩

end Measures

/-- The rows of one history. -/
def StageHistory.facts (history : StageHistory) : StageFacts := ⟨history.transitions, history.intervals⟩

theorem StageHistory.recordedIn_facts (history : StageHistory) : history.RecordedIn history.facts := by
  refine ⟨fun row => ⟨And.left, fun h => ⟨h, (mem_transitionsFrom h).1⟩⟩, fun row => ⟨And.left, fun h => ⟨h, ?_⟩⟩⟩
  unfold intervals at h
  split_ifs at h <;> exact (intervalsOf_enteredAt h).1

/-- A deal that has entered the assembly on the two-hundredth day. -/
def assembledDeal : StageHistory where
  dealId := "deal"
  createdAt := 0
  firstStageId := "new"
  moves := [⟨"assembly", 200 * DAY_MS⟩]
  sorted := by decide

/-- Ten days later the entry is seen. -/
theorem stage_age_sample :
    (elapsedStageDays assembledDeal.facts ["assembly"] (assembledDeal.dealAt (210 * DAY_MS)) (210 * DAY_MS) : ℚ) =
      durationDays (assembledDeal.entryAt (210 * DAY_MS)).enteredAt (210 * DAY_MS) :=
  ((stage_age assembledDeal assembledDeal.facts assembledDeal.recordedIn_facts ["assembly"] (210 * DAY_MS) (by decide)
    (by decide)).2 (.inl (by decide))).1

/-- Two hundred days later the deal counts as four hundred days in assembly. -/
theorem stage_age_fails :
    (elapsedStageDays assembledDeal.facts ["assembly"] (assembledDeal.dealAt (400 * DAY_MS)) (400 * DAY_MS) : ℚ) ≠
      durationDays (assembledDeal.entryAt (400 * DAY_MS)).enteredAt (400 * DAY_MS) := by
  decide +kernel

end AmoAnalytics.Reports.Forecast
