import AmoAnalytics.Lib.JsMap

/-!
# The probabilities of the stages

`recalculateStageProbabilities` of `amo-sync.service.ts`: for every open stage the share of won deals among the deals
that moved into it. The deals of the sample are distinct; the won side counts moves, so a deal that was won twice
counts twice.
-/

namespace AmoAnalytics.Amo

/-! ## The tables -/

structure PipelineStage where
  id : String
  isWon : Bool
  isLost : Bool
  deriving DecidableEq

/-- `DealStageHistory`. -/
structure StageMove where
  dealId : String
  fromStageId : Option String
  toStageId : String
  deriving DecidableEq

/-- `StageProbability`, by its stage. -/
structure StageProbability where
  manualPercent : Option ℚ := none
  autoPercent : Option ℚ := none
  sampleSize : ℕ := 0
  confidence : ℚ := 0

abbrev Probabilities := List (String × StageProbability)

/-! ## The counts -/

namespace StageMove

/-- `NOT: [{ fromStageId }]`: no row with an unknown previous stage passes the negated condition. -/
def notFrom (p : String → Bool) (move : StageMove) : Bool := move.fromStageId.any fun stage => !p stage

/-- The deal enters the stage from another one. -/
def enters (stageId : String) (move : StageMove) : Bool :=
  move.toStageId = stageId && move.notFrom (· = stageId)

/-- The deal enters a won stage from one that is not won. -/
def wins (wonStageIds : List String) (move : StageMove) : Bool :=
  wonStageIds.contains move.toStageId && move.notFrom wonStageIds.contains

end StageMove

/-- The distinct deals that moved into the stage. -/
def dealIdsInStage (history : List StageMove) (stageId : String) : List String :=
  JsMap.distinct ((history.filter (StageMove.enters stageId)).map (·.dealId))

/-- The moves into a won stage of the given deals. -/
def wonCount (history : List StageMove) (wonStageIds dealIds : List String) : ℕ :=
  (history.filter fun move => dealIds.contains move.dealId && move.wins wonStageIds).length

/-- The quotient of two numbers; JavaScript gives `NaN` or `Infinity` for a zero divisor. -/
def quotient (a b : ℕ) : Option ℚ := if b = 0 then none else some (a / b)

def autoPercent (won sampleSize : ℕ) : Option ℚ :=
  if sampleSize ≤ 2 then some 0 else (quotient won sampleSize).map (· * 100)

def confidence (sampleSize : ℕ) : ℚ := if sampleSize ≤ 2 then 0 else min 1 (sampleSize / 30)

/-! ## The run -/

structure StageDb where
  stages : List PipelineStage
  history : List StageMove
  probabilities : Probabilities := []

namespace StageDb

variable (db : StageDb)

def openStages : List PipelineStage := db.stages.filter fun stage => !stage.isWon && !stage.isLost

def wonStageIds : List String := (db.stages.filter (·.isWon)).map (·.id)

/-- One stage: its percent and the row; `none` when the percent is not a number, which the column refuses. -/
def upsertProbability (probabilities : Probabilities) (stageId : String) : Option Probabilities :=
  let dealIds := dealIdsInStage db.history stageId
  let sampleSize := dealIds.length
  let won := if 0 < sampleSize then wonCount db.history db.wonStageIds dealIds else 0
  (autoPercent won sampleSize).map fun percent =>
    JsMap.set stageId { (JsMap.get? stageId probabilities).getD {} with
      autoPercent := some percent
      sampleSize := sampleSize
      confidence := confidence sampleSize } probabilities

def recalculateStageProbabilities : Option Probabilities :=
  (db.openStages.map (·.id)).foldlM db.upsertProbability db.probabilities

/-! ## What a percent says -/

/-- The deals that reached the stage. -/
def reached (stageId : String) : List String := dealIdsInStage db.history stageId

/-- The moves that won the deal. -/
def winsOf (dealId : String) : ℕ :=
  db.history.countP fun move => move.dealId = dealId && move.wins db.wonStageIds

/-- The deals that reached the stage and were won. -/
def reachedAndWon (stageId : String) : List String :=
  (db.reached stageId).filter fun dealId => 0 < db.winsOf dealId

/-- The percent that the run writes for a stage. -/
def percentOf (stageId : String) : ℚ :=
  if (db.reached stageId).length ≤ 2 then 0
  else wonCount db.history db.wonStageIds (db.reached stageId) / (db.reached stageId).length * 100

end StageDb

/-! ## Counting moves by their deals -/

section Counts

variable {history : List StageMove}

theorem dealIdsInStage_nodup (stageId : String) : (dealIdsInStage history stageId).Nodup :=
  JsMap.nodup_keys_ofEntries _

/-- The moves of distinct deals are counted deal by deal. -/
theorem countP_contains (p : StageMove → Bool) {dealIds : List String} (hnodup : dealIds.Nodup) :
    history.countP (fun move => dealIds.contains move.dealId && p move) =
      (dealIds.map fun dealId => history.countP fun move => move.dealId = dealId && p move).sum := by
  induction dealIds with
  | nil => simp
  | cons dealId dealIds ih =>
    have hfresh : dealId ∉ dealIds := (List.nodup_cons.1 hnodup).1
    rw [List.map_cons, List.sum_cons, ← ih (List.nodup_cons.1 hnodup).2]
    clear ih hnodup
    induction history with
    | nil => rfl
    | cons move history ihist =>
      rw [List.countP_cons, List.countP_cons, List.countP_cons, ihist]
      by_cases hdeal : move.dealId = dealId
      · simp [hdeal, hfresh]
        omega
      · simp [hdeal]
        omega

/-- Numbers that are at most one add up to how many of them are positive. -/
theorem sum_eq_length_filter {α : Type*} {f : α → ℕ} {items : List α} (h : ∀ a ∈ items, f a ≤ 1) :
    (items.map f).sum = (items.filter fun a => 0 < f a).length := by
  induction items with
  | nil => rfl
  | cons a items ih =>
    rw [List.map_cons, List.sum_cons, ih fun b hb => h b (List.mem_cons_of_mem _ hb), List.filter_cons]
    have hone : f a ≤ 1 := h a List.mem_cons_self
    split_ifs with hpos
    · have hpos : 0 < f a := of_decide_eq_true hpos
      rw [List.length_cons]
      omega
    · have hzero : f a = 0 := by simpa using hpos
      omega

end Counts

/-! ## The written rows -/

namespace StageDb

variable {db : StageDb} {stageId : String} {probabilities : Probabilities}

theorem autoPercent_eq :
    autoPercent (if 0 < (db.reached stageId).length then
        wonCount db.history db.wonStageIds (db.reached stageId) else 0) (db.reached stageId).length =
      some (db.percentOf stageId) := by
  unfold autoPercent percentOf
  by_cases hfew : (db.reached stageId).length ≤ 2
  · rw [if_pos hfew, if_pos hfew]
  · have hpos : 0 < (db.reached stageId).length := by omega
    rw [if_neg hfew, if_neg hfew, if_pos hpos, quotient, if_neg hpos.ne']
    rfl

/-- What one stage writes: its own row, with the manual percent kept. -/
theorem upsertProbability_spec (probabilities : Probabilities) (stageId : String) :
    ∃ row : StageProbability,
      db.upsertProbability probabilities stageId = some (JsMap.set stageId row probabilities) ∧
      row.autoPercent = some (db.percentOf stageId) ∧
      row.sampleSize = (db.reached stageId).length ∧
      row.manualPercent = (JsMap.get? stageId probabilities).bind (·.manualPercent) := by
  refine ⟨{ (JsMap.get? stageId probabilities).getD {} with
    autoPercent := some (db.percentOf stageId)
    sampleSize := (db.reached stageId).length
    confidence := confidence (db.reached stageId).length }, ?_, rfl, rfl, ?_⟩
  · exact congrArg (Option.map _) autoPercent_eq
  · cases JsMap.get? stageId probabilities <;> rfl

/-- What holds of the row of a stage after a run over the given stages. -/
def Written (db : StageDb) (before after : Probabilities) (stageIds : List String) (stageId : String) : Prop :=
  (stageId ∉ stageIds → JsMap.get? stageId after = JsMap.get? stageId before) ∧
  (stageId ∈ stageIds → ∃ row : StageProbability, JsMap.get? stageId after = some row ∧
    row.autoPercent = some (db.percentOf stageId) ∧
    row.sampleSize = (db.reached stageId).length ∧
    row.manualPercent = (JsMap.get? stageId before).bind (·.manualPercent))

theorem foldlM_written (stageIds : List String) (before : Probabilities) :
    ∃ after, stageIds.foldlM db.upsertProbability before = some after ∧
      ∀ stageId, db.Written before after stageIds stageId := by
  induction stageIds generalizing before with
  | nil => exact ⟨before, rfl, fun stageId => ⟨fun _ => rfl, nofun⟩⟩
  | cons first stageIds ih =>
    obtain ⟨row, hrow, hpercent, hsample, hmanual⟩ := db.upsertProbability_spec before first
    obtain ⟨after, hafter, hwritten⟩ := ih (JsMap.set first row before)
    refine ⟨after, by rw [List.foldlM_cons, hrow]; exact hafter, fun stageId => ⟨fun hnot => ?_, fun hmem => ?_⟩⟩
    · have hne : stageId ≠ first := List.ne_of_not_mem_cons hnot
      rw [(hwritten stageId).1 (List.not_mem_of_not_mem_cons hnot), JsMap.get?_set, if_neg hne.symm]
    · by_cases hlater : stageId ∈ stageIds
      · obtain ⟨row', hget, hpercent', hsample', hmanual'⟩ := (hwritten stageId).2 hlater
        refine ⟨row', hget, hpercent', hsample', ?_⟩
        rw [hmanual', JsMap.get?_set]
        split_ifs with hfirst
        · exact hfirst ▸ hmanual
        · rfl
      · have hfirst : stageId = first := (List.mem_cons.1 hmem).resolve_right hlater
        subst hfirst
        refine ⟨row, ?_, hpercent, hsample, hmanual⟩
        rw [(hwritten stageId).1 hlater, JsMap.get?_set, if_pos rfl]

/-- The run completes, writes the percent of every open stage and keeps every other row. -/
theorem recalculate_written (db : StageDb) :
    ∃ after, db.recalculateStageProbabilities = some after ∧
      ∀ stageId, db.Written db.probabilities after (db.openStages.map (·.id)) stageId :=
  foldlM_written _ _

/-- Deals that were won at most once are counted once. -/
theorem wonCount_eq (honce : ∀ dealId ∈ db.reached stageId, db.winsOf dealId ≤ 1) :
    wonCount db.history db.wonStageIds (db.reached stageId) = (db.reachedAndWon stageId).length := by
  have hnodup : (db.reached stageId).Nodup := dealIdsInStage_nodup stageId
  rw [wonCount, ← List.countP_eq_length_filter, countP_contains _ hnodup]
  exact sum_eq_length_filter honce

theorem reachedAndWon_le : (db.reachedAndWon stageId).length ≤ (db.reached stageId).length :=
  List.length_filter_le _ _

theorem percentOf_mem (honce : ∀ dealId ∈ db.reached stageId, db.winsOf dealId ≤ 1) :
    0 ≤ db.percentOf stageId ∧ db.percentOf stageId ≤ 100 := by
  unfold percentOf
  split_ifs with hfew
  · norm_num
  · have hpos : (0 : ℚ) < (db.reached stageId).length := by
      exact_mod_cast (show 0 < (db.reached stageId).length by omega)
    have hle : ((db.reachedAndWon stageId).length : ℚ) ≤ (db.reached stageId).length := by
      exact_mod_cast reachedAndWon_le
    rw [wonCount_eq honce]
    refine ⟨by positivity, ?_⟩
    have hshare := (div_le_one hpos).2 hle
    linarith

/-- One open stage and a won one; the deals of `wins` are won once for every entry of the list. -/
def sampleDb (deals wins : List String) : StageDb where
  stages := [⟨"new", false, false⟩, ⟨"offer", false, false⟩, ⟨"won", true, false⟩]
  history := deals.map (fun deal => ⟨deal, some "new", "offer"⟩) ++ wins.map fun deal => ⟨deal, some "offer", "won"⟩

end StageDb

end AmoAnalytics.Amo
