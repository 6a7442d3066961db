import Mathlib

/-!
# The probabilities of the revenue forecast

The scoring of `revenue-forecast-model.ts`: a weighted share of won episodes with a prior, corrected on the logit
scale by the features of the deal, and the curve of these probabilities by the day. Arithmetic is exact, over an
ordered field `K`; the transcendental functions are parameters.
-/

namespace AmoAnalytics.Reports.Forecast

-- The literals that the definitions of several modules share.
scoped instance atLeastTwo_two : Nat.AtLeastTwo 2 := ⟨le_rfl⟩

scoped instance atLeastTwo_eight : Nat.AtLeastTwo 8 := ⟨by omega⟩

scoped instance atLeastTwo_sixty : Nat.AtLeastTwo 60 := ⟨by omega⟩

/-! ## The data -/

inductive ForecastOutcome where
  | won
  | lost
  | stillOpen
  deriving DecidableEq, Repr

/-- `ForecastDeadlineEpisode`; instants are milliseconds. -/
structure ForecastDeadlineEpisode where
  entryAt : ℤ
  observedUntil : ℤ
  outcome : ForecastOutcome
  outcomeAt : Option ℤ := none
  exitedAt : Option ℤ := none
  featureKeys : List String := []

/-- `ForecastFeatureSet` as far as the scoring reads it. -/
structure ForecastFeatureSet where
  keys : List String
  labels : List (String × String)

/-- `Math.log`, `Math.exp` and `0.5 ** x`. -/
structure MathFunctions (K : Type) where
  log : K → K
  exp : K → K
  halfPower : K → K

inductive Direction where
  | up
  | down
  deriving DecidableEq, Repr

inductive EstimateSource where
  | model
  | prior
  deriving DecidableEq, Repr

variable {K : Type}

structure ForecastProbabilityDriver (K : Type) where
  key : String
  label : String
  direction : Direction
  impactPoints : ℤ
  sampleWeight : K

structure ForecastProbabilityEstimate (K : Type) where
  probability : K
  baseProbability : K
  sampleSize : ℕ
  sampleWeight : K
  confidence : K
  source : EstimateSource
  drivers : List (ForecastProbabilityDriver K)

/-- `Omit<ScoreOptions, 'horizonDays'>`. -/
structure ScoreOptions (K : Type) where
  now : ℤ
  elapsedDays : Option K := none
  currentFeatures : Option ForecastFeatureSet := none
  priorProbability : Option K := none
  priorWeight : Option K := none
  halfLifeDays : Option K := none

structure WeightedBinaryObservation (K : Type) where
  value : Bool
  weight : K
  featureKeys : List String

def DAY_MS : ℤ := 86400000

def DRIVER_LABELS : List (String × String) :=
  [("manager", "история ответственного"), ("client", "история клиента"), ("amount", "сумма сделки"),
    ("condition", "новое / Refurbished"), ("base", "серверная база"), ("quantity", "количество единиц"),
    ("complexity", "сложность конфигурации"), ("country", "страна и маршрут"), ("source", "источник лида"),
    ("domain", "тип email-домена"), ("phone", "код страны телефона"), ("express", "Express"), ("tag", "теги сделки"),
    ("assembly_stage", "история этапа сборки"), ("assembly_elapsed", "время на текущем этапе")]

def FAMILY_WEIGHTS : List (String × ℚ) :=
  [("manager", 0.9), ("client", 0.75), ("amount", 0.45), ("condition", 0.45), ("base", 0.35), ("quantity", 0.35),
    ("complexity", 0.4), ("country", 0.35), ("source", 0.25), ("domain", 0.25), ("phone", 0.2), ("express", 0.4),
    ("tag", 0.2), ("assembly_stage", 1), ("assembly_elapsed", 0.75)]

/-! ## The helpers -/

variable [Field K] [LinearOrder K]

def clamp (value lo hi : K) : K := min (max value lo) hi

def durationDays (start stop : ℤ) : K := max 0 (((stop - start : ℤ) : K) / ((DAY_MS : ℤ) : K))

def emptyEstimate (probability : K) : ForecastProbabilityEstimate K where
  probability := probability
  baseProbability := probability
  sampleSize := 0
  sampleWeight := 0
  confidence := 0
  source := .prior
  drivers := []

/-- `key.split(':', 1)[0]`. -/
def familyOf (key : String) : String := String.ofList (key.toList.takeWhile (· != ':'))

def familyWeight (family : String) : K := (((FAMILY_WEIGHTS.lookup family).getD 0.15 : ℚ) : K)

def totalWeight (observations : List (WeightedBinaryObservation K)) : K := (observations.map (·.weight)).sum

/-- The weight of the observations that came true. -/
def winsWeight (observations : List (WeightedBinaryObservation K)) : K :=
  (observations.map fun item => if item.value then item.weight else 0).sum

/-- `b.impactPoints - a.impactPoints || b.sampleWeight - a.sampleWeight` is not positive. -/
def driverOrder (a b : ForecastProbabilityDriver K) : Bool :=
  b.impactPoints < a.impactPoints || (a.impactPoints = b.impactPoints && b.sampleWeight ≤ a.sampleWeight)

section Scoring

variable (fns : MathFunctions K)

def logit (value : K) : K := fns.log (clamp value 0.0001 0.9999 / (1 - clamp value 0.0001 0.9999))

def sigmoid (value : K) : K := 1 / (1 + fns.exp (-value))

def recencyWeight (observedAt now : ℤ) (halfLifeDays : K) : K :=
  fns.halfPower (max 0 (durationDays observedAt now) / max halfLifeDays 1)

variable [FloorRing K]

/-- `Math.round`. -/
def mathRound (value : K) : ℤ := ⌊value + 1 / 2⌋

/-- `Number(value.toFixed(1))` of a value that is not negative. -/
def toFixed1 (value : K) : K := (mathRound (value * 10) : K) / 10

/-! ## The score of weighted observations -/

/-- What one feature of the deal adds on the logit scale, with its driver. -/
def featureAdjustment (observations : List (WeightedBinaryObservation K)) (features : ForecastFeatureSet)
    (baseProbability : K) (key : String) : Option (K × ForecastProbabilityDriver K) :=
  let matching := observations.filter (·.featureKeys.contains key)
  let matchingWeight := totalWeight matching
  if matchingWeight < 2 then none
  else
    let posterior := clamp ((winsWeight matching + baseProbability * 14) / (matchingWeight + 14)) 0.005 0.995
    let reliability := matchingWeight / (matchingWeight + 8)
    let rawAdjustment := clamp (logit fns posterior - logit fns baseProbability) (-0.7) 0.7
    let adjustment := rawAdjustment * familyWeight (familyOf key) * reliability
    if |adjustment| < 0.01 then none
    else
      let isolatedProbability := sigmoid fns (logit fns baseProbability + adjustment)
      some (adjustment,
        { key := key
          label := (features.labels.lookup key).getD ((DRIVER_LABELS.lookup (familyOf key)).getD (familyOf key))
          direction := if 0 ≤ adjustment then .up else .down
          impactPoints := mathRound (|isolatedProbability - baseProbability| * 100)
          sampleWeight := toFixed1 matchingWeight })

def scoreWeightedBinary (observations : List (WeightedBinaryObservation K)) (options : ScoreOptions K) :
    ForecastProbabilityEstimate K :=
  let priorProbability := clamp (options.priorProbability.getD 0.2) 0.01 0.99
  let priorWeight := max 1 (options.priorWeight.getD 8)
  let sampleWeight := totalWeight observations
  let baseProbability := clamp
    ((winsWeight observations + priorProbability * priorWeight) / max (sampleWeight + priorWeight) 1) 0.005 0.995
  let features := options.currentFeatures.getD ⟨[], []⟩
  let adjustments := features.keys.filterMap (featureAdjustment fns observations features baseProbability)
  let drivers := adjustments.map (·.2)
  let totalLogitAdjustment := clamp (adjustments.map (·.1)).sum (-1.25) 1.25
  { probability := clamp (sigmoid fns (logit fns baseProbability + totalLogitAdjustment)) 0.005 0.995
    baseProbability := baseProbability
    sampleSize := observations.length
    sampleWeight := toFixed1 sampleWeight
    confidence := clamp (sampleWeight / (sampleWeight + 25) * 0.8 + (min drivers.length 3 : ℕ) * 0.05) 0 0.95
    source := if observations = [] then .prior else .model
    drivers := (drivers.mergeSort driverOrder).take 4 }

/-! ## The probability of a deadline -/

/-- The observation an episode gives for the window, unless it ended before or is still undecided at its end. -/
def deadlineObservation (options : ScoreOptions K) (elapsedDays horizonDays : K) (episode : ForecastDeadlineEpisode) :
    Option (WeightedBinaryObservation K) :=
  let observedDays : K := durationDays episode.entryAt episode.observedUntil
  let outcomeDays : Option K := episode.outcomeAt.map (durationDays episode.entryAt)
  let exitedDays : Option K := episode.exitedAt.map (durationDays episode.entryAt)
  if outcomeDays.any (· ≤ elapsedDays) then none
  else if exitedDays.any (· ≤ elapsedDays) then none
  else if ¬(episode.outcome ≠ .stillOpen ∧ outcomeDays.isSome) ∧ observedDays < elapsedDays + horizonDays then none
  else
    some
      { value := episode.outcome = .won && outcomeDays.any (· ≤ elapsedDays + horizonDays)
        weight := recencyWeight fns episode.entryAt options.now (options.halfLifeDays.getD 60)
        featureKeys := episode.featureKeys }

def scoreDeadlineProbability (episodes : List ForecastDeadlineEpisode) (options : ScoreOptions K) (horizon : K) :
    ForecastProbabilityEstimate K :=
  let horizonDays := max 0 horizon
  if horizonDays ≤ 0 then emptyEstimate 0
  else
    let elapsedDays := max 0 (options.elapsedDays.getD 0)
    scoreWeightedBinary fns (episodes.filterMap (deadlineObservation fns options elapsedDays horizonDays)) options

/-- The loop over the days, `previous` the probability of the day before. -/
def curveFrom (episodes : List ForecastDeadlineEpisode) (options : ScoreOptions K) :
    K → List ℕ → List (ForecastProbabilityEstimate K)
  | _, [] => []
  | previous, day :: days =>
    let estimate := scoreDeadlineProbability fns episodes options day
    let probability := max previous estimate.probability
    { estimate with probability := probability } :: curveFrom episodes options probability days

def buildDeadlineProbabilityCurve (episodes : List ForecastDeadlineEpisode) (options : ScoreOptions K)
    (maxHorizonDays : K) : List (ForecastProbabilityEstimate K) :=
  curveFrom fns episodes options 0 (List.range' 1 (max 0 ⌈maxHorizonDays⌉).toNat)

end Scoring

/-! ## Every estimate is a probability -/

section Bounds

omit [Field K] in
theorem clamp_mem {value lo hi : K} (h : lo ≤ hi) : lo ≤ clamp value lo hi ∧ clamp value lo hi ≤ hi :=
  ⟨le_min (le_max_right _ _) h, min_le_right _ _⟩

variable (fns : MathFunctions K) [FloorRing K] [IsStrictOrderedRing K]

theorem scoreWeightedBinary_probability (observations : List (WeightedBinaryObservation K))
    (options : ScoreOptions K) :
    0.005 ≤ (scoreWeightedBinary fns observations options).probability ∧
      (scoreWeightedBinary fns observations options).probability ≤ 0.995 :=
  clamp_mem (by norm_num)
theorem scoreDeadlineProbability_probability (episodes : List ForecastDeadlineEpisode) (options : ScoreOptions K)
    (horizon : K) :
    0 ≤ (scoreDeadlineProbability fns episodes options horizon).probability ∧
      (scoreDeadlineProbability fns episodes options horizon).probability ≤ 1 := by
  simp only [scoreDeadlineProbability]
  split
  · exact ⟨le_rfl, zero_le_one⟩
  · obtain ⟨hlo, hhi⟩ := scoreWeightedBinary_probability fns (episodes.filterMap
      (deadlineObservation fns options (max 0 (options.elapsedDays.getD 0)) (max 0 horizon))) options
    exact ⟨le_trans (by norm_num) hlo, le_trans hhi (by norm_num)⟩

/-! ## The curve -/

variable (episodes : List ForecastDeadlineEpisode) (options : ScoreOptions K)

omit [IsStrictOrderedRing K] in
@[simp] theorem length_curveFrom (previous : K) (days : List ℕ) :
    (curveFrom fns episodes options previous days).length = days.length := by
  induction days generalizing previous with
  | nil => rfl
  | cons day days ih => simp [curveFrom, ih]

/-- No day falls below the day before it, nor outside the range of a probability. -/
theorem curveFrom_bounds {previous : K} (hlo : 0 ≤ previous) (hhi : previous ≤ 1) (days : List ℕ) :
    ∀ estimate ∈ curveFrom fns episodes options previous days,
      previous ≤ estimate.probability ∧ 0 ≤ estimate.probability ∧ estimate.probability ≤ 1 := by
  induction days generalizing previous with
  | nil => intro estimate h; cases h
  | cons day days ih =>
    obtain ⟨hday₀, hday₁⟩ := scoreDeadlineProbability_probability fns episodes options (day : K)
    have hnext₀ : 0 ≤ max previous (scoreDeadlineProbability fns episodes options (day : K)).probability :=
      le_max_of_le_left hlo
    have hnext₁ : max previous (scoreDeadlineProbability fns episodes options (day : K)).probability ≤ 1 :=
      max_le hhi hday₁
    intro estimate h
    simp only [curveFrom, List.mem_cons] at h
    rcases h with rfl | h
    · exact ⟨le_max_left _ _, hnext₀, hnext₁⟩
    · obtain ⟨hprevious, hrest⟩ := ih hnext₀ hnext₁ estimate h
      exact ⟨(le_max_left _ _).trans hprevious, hrest⟩

theorem curveFrom_sorted {previous : K} (hlo : 0 ≤ previous) (hhi : previous ≤ 1) (days : List ℕ) :
    (curveFrom fns episodes options previous days).Pairwise fun a b => a.probability ≤ b.probability := by
  induction days generalizing previous with
  | nil => exact .nil
  | cons day days ih =>
    obtain ⟨hday₀, hday₁⟩ := scoreDeadlineProbability_probability fns episodes options (day : K)
    have hnext₀ : 0 ≤ max previous (scoreDeadlineProbability fns episodes options (day : K)).probability :=
      le_max_of_le_left hlo
    refine .cons (fun estimate h => ?_) (ih hnext₀ (max_le hhi hday₁))
    exact (curveFrom_bounds fns episodes options hnext₀ (max_le hhi hday₁) days estimate h).1

omit [IsStrictOrderedRing K] in
/-- The value of a day is the highest estimate of the days so far. -/
theorem getElem?_curveFrom (previous : K) (days : List ℕ) (i : ℕ) :
    (curveFrom fns episodes options previous days)[i]? = days[i]?.map fun day =>
      { scoreDeadlineProbability fns episodes options (day : K) with
        probability := ((days.take (i + 1)).map fun d =>
          (scoreDeadlineProbability fns episodes options (d : K)).probability).foldl max previous } := by
  induction days generalizing previous i with
  | nil => rfl
  | cons day days ih =>
    cases i with
    | zero => simp [curveFrom]
    | succ i => simp [curveFrom, ih]

/-- The curve has one value a day up to the horizon; the value of a day is the highest estimate of the days up to
it, so the values are probabilities that never fall. -/
theorem deadline_curve (maxHorizonDays : K) :
    ((buildDeadlineProbabilityCurve fns episodes options maxHorizonDays).length : ℤ) = max 0 ⌈maxHorizonDays⌉ ∧
      (∀ estimate ∈ buildDeadlineProbabilityCurve fns episodes options maxHorizonDays,
        0 ≤ estimate.probability ∧ estimate.probability ≤ 1) ∧
      ((buildDeadlineProbabilityCurve fns episodes options maxHorizonDays).Pairwise fun a b =>
        a.probability ≤ b.probability) ∧
      ∀ i < (buildDeadlineProbabilityCurve fns episodes options maxHorizonDays).length,
        (buildDeadlineProbabilityCurve fns episodes options maxHorizonDays)[i]? = some
        { scoreDeadlineProbability fns episodes options ((i + 1 : ℕ) : K) with
          probability := ((List.range' 1 (i + 1)).map fun day =>
            (scoreDeadlineProbability fns episodes options (day : K)).probability).foldl max 0 } := by
  generalize hcurve : buildDeadlineProbabilityCurve fns episodes options maxHorizonDays = curve
  have hlength : curve.length = (max 0 ⌈maxHorizonDays⌉).toNat := by
    simp [← hcurve, buildDeadlineProbabilityCurve]
  refine ⟨by rw [hlength]; omega, fun estimate h => ?_,
    hcurve ▸ curveFrom_sorted fns episodes options le_rfl zero_le_one _, fun i hi => ?_⟩
  · exact (curveFrom_bounds fns episodes options le_rfl zero_le_one _ estimate (hcurve ▸ h)).2
  · rw [hlength] at hi
    have hday : (List.range' 1 (max 0 ⌈maxHorizonDays⌉).toNat)[i]? = some (i + 1) := by
      rw [List.getElem?_range' hi]
      congr 1
      omega
    have htake : (List.range' 1 (max 0 ⌈maxHorizonDays⌉).toNat).take (i + 1) = List.range' 1 (i + 1) := by
      rw [List.take_range'_of_length_ge (by omega)]
    simp only [← hcurve, buildDeadlineProbabilityCurve]
    rw [getElem?_curveFrom, hday, htake]
    rfl

end Bounds

/-- The functions of `Math` on the real numbers. -/
noncomputable def realFunctions : MathFunctions ℝ where
  log := Real.log
  exp := Real.exp
  halfPower := fun x => 2⁻¹ ^ x

/-- A deal won on its second day. -/
def wonEpisode : ForecastDeadlineEpisode where
  entryAt := 0
  observedUntil := 3 * DAY_MS
  outcome := .won
  outcomeAt := some (2 * DAY_MS)

theorem deadline_curve_sample :
    let curve := buildDeadlineProbabilityCurve realFunctions [wonEpisode] { now := 3 * DAY_MS } (5 / 2)
    curve.length = 3 ∧ curve.Pairwise fun a b => a.probability ≤ b.probability := by
  intro curve
  obtain ⟨hlength, -, hsorted, -⟩ := deadline_curve realFunctions [wonEpisode] { now := 3 * DAY_MS } (5 / 2)
  have hceil : ⌈(5 / 2 : ℝ)⌉ = 3 := by rw [Int.ceil_eq_iff]; norm_num
  rw [hceil] at hlength
  exact ⟨by exact_mod_cast hlength, hsorted⟩

end AmoAnalytics.Reports.Forecast
