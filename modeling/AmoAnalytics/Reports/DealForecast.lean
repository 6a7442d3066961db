import AmoAnalytics.Amo.StageProbability
import AmoAnalytics.Lib.CivilCalendar

/-!
# The forecast of the month

`computeForecast` of `reports.service.ts` adds the amounts of the deals that were closed this month in the closing
stage to the weighted amounts of the open deals. Only the query of the open deals leaves the deleted ones out, and
only it asks for the kind of the stage.
-/

namespace AmoAnalytics.Reports.DealForecast

open CivilDate Amo

/-! ## Tables -/

structure FactDealCurrent where
  dealId : String
  title : String
  stageId : String
  stageName : String
  stageIsWon : Bool
  stageIsLost : Bool
  amount : ℚ
  closedAt : Option ℤ
  deletedAt : Option ℤ
deriving DecidableEq

inductive ProbabilityMode
  | manual
  | auto
  | hybrid

structure ForecastSettings where
  closingStageId : Option String
  shippingPipelineId : Option String
  shippingSuccessStageId : Option String
  probabilityMode : ProbabilityMode

structure StageTransition where
  dealId : String
  toStageId : String
  movedAt : ℤ

structure Database where
  facts : List FactDealCurrent
  settings : Option ForecastSettings
  probabilities : Probabilities
  /-- Stages with their pipelines. -/
  stages : List (String × String)
  transitions : List StageTransition
  factKeys : (facts.map FactDealCurrent.dealId).Nodup

/-! ## `date.util.ts` -/

/-- `Date.UTC(year, month, 1)` of the instant's year and month. -/
def startOfMonth (now : ℤ) : ℤ := utc (utcYear now) (utcMonth now) 1 0

def endOfMonth (now : ℤ) : ℤ := utc (utcYear now) (utcMonth now + 1) 0 86_399_999

def absoluteDurationDays (start end_ : ℤ) : Option ℚ :=
  if end_ ≤ start then none else some ((end_ - start : ℤ) / (day : ℚ))

def median (values : List ℚ) : Option ℚ :=
  let sorted := values.insertionSort (· ≤ ·)
  let mid := sorted.length / 2
  if values = [] then none
  else if sorted.length % 2 = 1 then some (sorted.getD mid 0)
  else some ((sorted.getD (mid - 1) 0 + sorted.getD mid 0) / 2)

/-- `Math.round`. -/
def mathRound (value : ℚ) : ℤ := ⌊value + 1 / 2⌋

/-! ## `computeShippingShoulder` -/

structure ShippingShoulder where
  configured : Bool
  avgDays : Option ℚ
  medianDays : Option ℚ
  sampleSize : ℕ

/-- A text that is there and not empty. -/
def given (value : Option String) : Option String := value.filter (· ≠ "")

/-- Days from the first entry of the pipeline to the last one of its success stage. -/
def shoulderDurations (entries : List StageTransition) (successStageId : String) : List ℚ :=
  let successByDeal := JsMap.ofEntries
    ((entries.filter fun entry => entry.toStageId = successStageId).map fun entry => (entry.dealId, entry.movedAt))
  successByDeal.filterMap fun success =>
    (entries.find? fun entry => entry.dealId = success.1).bind fun first =>
      absoluteDurationDays first.movedAt success.2

def computeShippingShoulder (db : Database) (shippingPipelineId successStageId : Option String) : ShippingShoulder :=
  match given shippingPipelineId, given successStageId with
  | some pipelineId, some successStageId =>
    let stageIds := (db.stages.filter fun stage => stage.2 = pipelineId).map Prod.fst
    let entries := (db.transitions.filter fun entry => entry.toStageId ∈ stageIds).insertionSort
      fun a b => a.movedAt ≤ b.movedAt
    let durations := shoulderDurations entries successStageId
    { configured := true
      avgDays := if durations = [] then none
        else some (mathRound (durations.sum / durations.length * 100) / 100)
      medianDays := median durations, sampleSize := durations.length }
  | _, _ => { configured := false, avgDays := none, medianDays := none, sampleSize := 0 }

/-! ## `computeForecast` -/

structure WeightedRow where
  dealId : String
  title : String
  stage : String
  amount : ℚ
  probabilityPercent : ℚ
  expectedAmount : ℚ
  /-- `'manual'` or `'auto'`. -/
  probabilitySource : String
  confidence : ℚ

structure ForecastReport where
  closedAmount : ℚ
  weightedAmount : ℤ
  totalForecast : ℤ
  closedDeals : ℕ
  openWeightedDeals : ℕ
  shippingShoulder : ShippingShoulder
  rows : List WeightedRow

section Functions

variable (db : Database)

def closingStageId (stageIds : List String) : Option String :=
  given (stageIds.head? <|> db.settings.bind ForecastSettings.closingStageId)

/-- The condition of the query of closed deals. -/
def IsClosed (now : ℤ) (stageIds : List String) (deal : FactDealCurrent) : Prop :=
  closingStageId db stageIds = some deal.stageId ∧
    ∃ closedAt ∈ deal.closedAt, startOfMonth now ≤ closedAt ∧ closedAt ≤ endOfMonth now

instance (now : ℤ) (stageIds : List String) (deal : FactDealCurrent) : Decidable (IsClosed db now stageIds deal) :=
  inferInstanceAs (Decidable (_ ∧ _))

/-- The condition of the query of open deals. -/
def IsOpen (deal : FactDealCurrent) : Prop :=
  deal.deletedAt = none ∧ deal.stageIsWon = false ∧ deal.stageIsLost = false

instance (deal : FactDealCurrent) : Decidable (IsOpen deal) := inferInstanceAs (Decidable (_ ∧ _))

def closedDeals (now : ℤ) (stageIds : List String) : List FactDealCurrent :=
  db.facts.filter fun deal => IsClosed db now stageIds deal

def weightedDeals : List FactDealCurrent := db.facts.filter fun deal => IsOpen deal

def probabilityMode : ProbabilityMode := (db.settings.map ForecastSettings.probabilityMode).getD .hybrid

def weightedRow (deal : FactDealCurrent) : WeightedRow :=
  let probability := JsMap.get? deal.stageId db.probabilities
  let manual := probability.bind StageProbability.manualPercent
  let auto := probability.bind StageProbability.autoPercent
  let percent := match probabilityMode db with
    | .manual => manual.getD 0
    | .auto => auto.getD 0
    | .hybrid => (manual <|> auto).getD 0
  { dealId := deal.dealId, title := deal.title, stage := deal.stageName, amount := deal.amount
    probabilityPercent := percent, expectedAmount := deal.amount * (percent / 100)
    probabilitySource := if manual.isSome then "manual" else "auto"
    confidence := (probability.map StageProbability.confidence).getD 0 }

def computeForecast (now : ℤ) (stageIds : List String) : ForecastReport :=
  let closed := closedDeals db now stageIds
  let weighted := (weightedDeals db).map (weightedRow db)
  let closedAmount := (closed.map FactDealCurrent.amount).sum
  let weightedAmount := (weighted.map WeightedRow.expectedAmount).sum
  { closedAmount, weightedAmount := mathRound weightedAmount
    totalForecast := mathRound (closedAmount + weightedAmount)
    closedDeals := closed.length, openWeightedDeals := weighted.length
    shippingShoulder := computeShippingShoulder db (db.settings.bind ForecastSettings.shippingPipelineId)
      (db.settings.bind ForecastSettings.shippingSuccessStageId)
    rows := weighted }

/-! ## What is counted -/

/-- What a deal brings to the total through the components it is in. -/
def contribution (now : ℤ) (stageIds : List String) (deal : FactDealCurrent) : ℚ :=
  (if IsClosed db now stageIds deal then deal.amount else 0) +
    if IsOpen deal then (weightedRow db deal).expectedAmount else 0

/-- The deals of some component. -/
def included (now : ℤ) (stageIds : List String) : List FactDealCurrent :=
  db.facts.filter fun deal => IsClosed db now stageIds deal ∨ IsOpen deal

/-- No deleted deal is counted, the others at most once, and the total is the sum of what they bring. -/
structure CountsOnce (now : ℤ) (stageIds : List String) : Prop where
  deleted : ∀ deal ∈ db.facts, deal.deletedAt ≠ none →
    deal ∉ closedDeals db now stageIds ∧ deal ∉ weightedDeals db
  once : ∀ deal ∈ db.facts, deal.deletedAt = none →
    ((closedDeals db now stageIds ++ weightedDeals db).map FactDealCurrent.dealId).count deal.dealId ≤ 1
  total : ((computeForecast db now stageIds).totalForecast : ℚ) =
    ((included db now stageIds).map (contribution db now stageIds)).sum

end Functions

section Counting

variable {db : Database} {now : ℤ} {stageIds : List String}

theorem count_filter (p : FactDealCurrent → Prop) [DecidablePred p] {deal : FactDealCurrent}
    (hdeal : deal ∈ db.facts) : ((db.facts.filter fun deal => p deal).map FactDealCurrent.dealId).count deal.dealId =
      if p deal then 1 else 0 := by
  have hnodup : ((db.facts.filter fun deal => p deal).map FactDealCurrent.dealId).Nodup :=
    db.factKeys.sublist (List.filter_sublist.map _)
  have hmem : deal.dealId ∈ (db.facts.filter fun deal => p deal).map FactDealCurrent.dealId ↔ p deal := by
    constructor
    · intro h
      obtain ⟨other, hother, hid⟩ := List.mem_map.1 h
      obtain ⟨hfact, hp⟩ := List.mem_filter.1 hother
      obtain rfl := List.inj_on_of_nodup_map db.factKeys hfact hdeal hid
      exact of_decide_eq_true hp
    · exact fun h => List.mem_map_of_mem (List.mem_filter.2 ⟨hdeal, decide_eq_true h⟩)
  rw [hnodup.count]
  simp only [hmem]

/-- A deal is in both components when both queries find it. -/
theorem count_components {deal : FactDealCurrent} (hdeal : deal ∈ db.facts) :
    ((closedDeals db now stageIds ++ weightedDeals db).map FactDealCurrent.dealId).count deal.dealId ≤ 1 ↔
      ¬ (IsClosed db now stageIds deal ∧ IsOpen deal) := by
  rw [List.map_append, List.count_append, closedDeals, weightedDeals, count_filter _ hdeal, count_filter _ hdeal]
  split_ifs with hclosed hopen hopen <;> simp [hclosed, hopen]

theorem sum_filter_eq (p : FactDealCurrent → Prop) [DecidablePred p] (w : FactDealCurrent → ℚ)
    (l : List FactDealCurrent) :
    ((l.filter fun deal => p deal).map w).sum = (l.map fun deal => if p deal then w deal else 0).sum := by
  induction l with
  | nil => rfl
  | cons deal l ih =>
    by_cases hp : p deal
    · rw [List.filter_cons_of_pos (by simpa using hp), List.map_cons, List.map_cons, List.sum_cons, List.sum_cons, ih,
        if_pos hp]
    · rw [List.filter_cons_of_neg (by simpa using hp), List.map_cons, List.sum_cons, ih, if_neg hp, zero_add]

/-- The two amounts add up what the included deals bring. -/
theorem sum_contribution : ((included db now stageIds).map (contribution db now stageIds)).sum =
    ((closedDeals db now stageIds).map FactDealCurrent.amount).sum +
      (((weightedDeals db).map (weightedRow db)).map WeightedRow.expectedAmount).sum := by
  rw [included, closedDeals, weightedDeals, List.map_map, sum_filter_eq, sum_filter_eq, sum_filter_eq,
    ← List.sum_map_add]
  congr 1
  refine List.map_congr_left fun deal _ => ?_
  unfold contribution
  split_ifs with hincluded hclosed hopen hopen <;> simp_all

theorem totalForecast_eq : (computeForecast db now stageIds).totalForecast =
    mathRound ((included db now stageIds).map (contribution db now stageIds)).sum := by
  rw [sum_contribution]
  rfl

theorem mathRound_eq_iff {value : ℚ} : (mathRound value : ℚ) = value ↔ ∃ n : ℤ, value = n := by
  constructor
  · exact fun h => ⟨_, h.symm⟩
  · rintro ⟨n, rfl⟩
    have hfloor : ⌊(n : ℚ) + 1 / 2⌋ = n := by
      rw [Int.floor_eq_iff]
      constructor <;> linarith
    rw [mathRound, hfloor]

/-- The forecast counts deals once exactly when every deal closed this month in the closing stage is not deleted and
its stage is won or lost; the total is always rounded to a whole number. -/
theorem countsOnce_iff (db : Database) (now : ℤ) (stageIds : List String) :
    (CountsOnce db now stageIds ↔
      (∀ deal ∈ db.facts, IsClosed db now stageIds deal →
        deal.deletedAt = none ∧ (deal.stageIsWon = true ∨ deal.stageIsLost = true)) ∧
      ∃ n : ℤ, ((included db now stageIds).map (contribution db now stageIds)).sum = n) ∧
    (computeForecast db now stageIds).totalForecast =
      mathRound ((included db now stageIds).map (contribution db now stageIds)).sum := by
  refine ⟨⟨fun h => ⟨fun deal hdeal hclosed => ?_, ?_⟩,
    fun h => ⟨fun deal hdeal hdeleted => ?_, fun deal hdeal _ => ?_, ?_⟩⟩, totalForecast_eq⟩
  · have hlive : deal.deletedAt = none := by
      by_contra hdeleted
      exact (h.deleted deal hdeal hdeleted).1 (List.mem_filter.2 ⟨hdeal, decide_eq_true hclosed⟩)
    have hopen : ¬ IsOpen deal := fun hopen => (count_components hdeal).1 (h.once deal hdeal hlive) ⟨hclosed, hopen⟩
    refine ⟨hlive, ?_⟩
    by_contra hkind
    rw [not_or, Bool.not_eq_true, Bool.not_eq_true] at hkind
    exact hopen ⟨hlive, hkind⟩
  · rw [← mathRound_eq_iff, ← totalForecast_eq]
    exact h.total
  · constructor
    · intro hmem
      exact hdeleted (h.1 deal hdeal (of_decide_eq_true (List.mem_filter.1 hmem).2)).1
    · intro hmem
      exact hdeleted (of_decide_eq_true (List.mem_filter.1 hmem).2 : IsOpen deal).1
  · refine (count_components hdeal).2 ?_
    rintro ⟨hclosed, -, hwon, hlost⟩
    rcases (h.1 deal hdeal hclosed).2 with hkind | hkind
    · exact Bool.false_ne_true (hwon.symm.trans hkind)
    · exact Bool.false_ne_true (hlost.symm.trans hkind)
  · rw [totalForecast_eq, mathRound_eq_iff]
    exact h.2

end Counting

/-- A deal that was won on 6 October 2026 and then deleted. -/
def deletedWin : Database where
  facts := [⟨"deal", "Server", "won", "Won", true, false, 100, some 1_791_270_000_000, some 1_791_356_400_000⟩]
  settings := some ⟨some "won", none, none, .hybrid⟩
  probabilities := []
  stages := []
  transitions := []
  factKeys := by decide

/-- The deleted deal is in the closed amount. -/
theorem deleted_win_is_counted : ¬ CountsOnce deletedWin 1_792_000_000_000 [] := by
  intro h
  have hdeleted := (h.deleted _ List.mem_cons_self (by decide)).1
  exact hdeleted (by decide)

end AmoAnalytics.Reports.DealForecast
