import AmoAnalytics.Lib.WeightedScan
import AmoAnalytics.Reports.ForecastModel

/-!
# Quantiles of durations

`weightedDurationQuantile` of `revenue-forecast-model.ts` goes through the durations in their order until the weights
that it has passed reach the share that is asked for. With positive weights it gives one of the durations, one that
has that share of the weight at or below it, and a larger quantile gives no shorter duration.
-/

namespace AmoAnalytics.Reports.Forecast

open WeightedScan

variable {K : Type}

/-- `ForecastDurationObservation`; a duration that is no finite number is `none`. -/
structure ForecastDurationObservation (K : Type) where
  observedAt : ℤ
  durationDays : Option K
  featureKeys : List String := []

variable [Field K] [LinearOrder K] (fns : MathFunctions K)

/-- Eight observations with one of the features are enough; otherwise all are taken. -/
def durationSource (observations : List (ForecastDurationObservation K)) (featureKeys : List String) :
    List (ForecastDurationObservation K) :=
  let matching := observations.filter fun item => item.featureKeys.any (· ∈ featureKeys)
  if 8 ≤ matching.length then matching else observations

/-- The finite durations with their weights. -/
def weightedDurations (observations : List (ForecastDurationObservation K)) (now : ℤ) (featureKeys : List String) :
    List (K × K) :=
  (durationSource observations featureKeys).filterMap fun item =>
    item.durationDays.map fun value => (value, recencyWeight fns item.observedAt now 90)

def weightedDurationQuantile (observations : List (ForecastDurationObservation K)) (quantile : K) (now : ℤ)
    (featureKeys : List String) : Option K :=
  let values := (weightedDurations fns observations now featureKeys).insertionSort fun a b => a.1 ≤ b.1
  match values.getLast? with
  | none => none
  | some last => some ((scan (clamp quantile 0 1 * (values.map Prod.snd).sum) 0 values).getD last.1)

section Quantile

variable {fns} {observations : List (ForecastDurationObservation K)} {now : ℤ} {featureKeys : List String}

theorem weightedDurations_pos (hweight : ∀ x, 0 < fns.halfPower x) {item : K × K}
    (h : item ∈ weightedDurations fns observations now featureKeys) : 0 < item.2 := by
  obtain ⟨observation, -, hitem⟩ := List.mem_filterMap.1 h
  obtain ⟨value, -, rfl⟩ := Option.map_eq_some_iff.1 hitem
  exact hweight _

variable [IsStrictOrderedRing K]

theorem totalWeight_nonneg {items : List (K × K)} (h : ∀ item ∈ items, 0 ≤ item.2) :
    0 ≤ WeightedScan.totalWeight items := by
  refine List.sum_nonneg fun weight hweight => ?_
  obtain ⟨item, hitem, rfl⟩ := List.mem_map.1 hweight
  exact h item hitem

/-- The scan of a quantile stops. -/
theorem weightedDurationQuantile_spec (hweight : ∀ x, 0 < fns.halfPower x)
    (hne : weightedDurations fns observations now featureKeys ≠ []) {quantile : K} (hlow : 0 ≤ quantile)
    (hhigh : quantile ≤ 1) :
    ∃ x, weightedDurationQuantile fns observations quantile now featureKeys = some x ∧
      scan (quantile * WeightedScan.totalWeight (weightedDurations fns observations now featureKeys)) 0
        ((weightedDurations fns observations now featureKeys).insertionSort fun a b => a.1 ≤ b.1) = some x := by
  set items := weightedDurations fns observations now featureKeys with hitems
  set values := items.insertionSort fun a b => a.1 ≤ b.1 with hvalues
  have hperm : values.Perm items := List.perm_insertionSort _ items
  have hnonneg : ∀ item ∈ items, 0 ≤ item.2 := fun item hitem => (weightedDurations_pos hweight hitem).le
  have htotal : (values.map Prod.snd).sum = WeightedScan.totalWeight items := (hperm.map Prod.snd).sum_eq
  have hvaluesNe : values ≠ [] := fun hempty => hne (List.perm_nil.1 (hempty ▸ hperm.symm))
  have hclamp : clamp quantile 0 1 = quantile := by rw [clamp, max_eq_left hlow, min_eq_left hhigh]
  have hreach : quantile * WeightedScan.totalWeight items ≤ 0 + WeightedScan.totalWeight values := by
    have hsame : WeightedScan.totalWeight values = WeightedScan.totalWeight items := htotal
    rw [zero_add, hsame]
    exact mul_le_of_le_one_left (totalWeight_nonneg hnonneg) hhigh
  obtain ⟨x, hx⟩ := exists_scan hvaluesNe hreach
  refine ⟨x, ?_, hx⟩
  unfold weightedDurationQuantile
  dsimp only
  rw [← hitems, ← hvalues, htotal, hclamp, hx,
    List.getLast?_eq_getLast_of_ne_nil hvaluesNe]
  rfl

/-- **The weighted quantile.** With positive weights the quantile is one of the durations, the durations at or below
it have at least its share of the weight, and a larger quantile is no shorter. -/
theorem weighted_duration_quantile (hweight : ∀ x, 0 < fns.halfPower x)
    (hne : weightedDurations fns observations now featureKeys ≠ []) {p q : K} (hp : 0 < p) (hpq : p ≤ q)
    (hq : q ≤ 1) :
    ∃ x y, weightedDurationQuantile fns observations p now featureKeys = some x ∧
      weightedDurationQuantile fns observations q now featureKeys = some y ∧
      x ∈ (weightedDurations fns observations now featureKeys).map Prod.fst ∧
      p * WeightedScan.totalWeight (weightedDurations fns observations now featureKeys) ≤
        weightUpTo x (weightedDurations fns observations now featureKeys) ∧ x ≤ y := by
  have hnonneg : ∀ item ∈ weightedDurations fns observations now featureKeys, 0 ≤ item.2 :=
    fun item hitem => (weightedDurations_pos hweight hitem).le
  obtain ⟨x, hx, hscanx⟩ := weightedDurationQuantile_spec hweight hne hp.le (hpq.trans hq)
  obtain ⟨y, hy, hscany⟩ := weightedDurationQuantile_spec hweight hne (hp.le.trans hpq) hq
  have hperm := List.perm_insertionSort (fun a b : K × K => a.1 ≤ b.1)
    (weightedDurations fns observations now featureKeys)
  have hsorted := List.pairwise_insertionSort (fun a b : K × K => a.1 ≤ b.1)
    (weightedDurations fns observations now featureKeys)
  have hweights := le_weightUpTo hsorted (fun item hitem => hnonneg item (hperm.subset hitem)) hscanx
  refine ⟨x, y, hx, hy, (hperm.map Prod.fst).subset (scan_mem hscanx), ?_, ?_⟩
  · have hsame : weightUpTo x ((weightedDurations fns observations now featureKeys).insertionSort
        fun a b => a.1 ≤ b.1) = weightUpTo x (weightedDurations fns observations now featureKeys) :=
      ((hperm.filter _).map Prod.snd).sum_eq
    rwa [zero_add, hsame] at hweights
  · exact scan_mono hsorted (mul_le_mul_of_nonneg_right hpq (totalWeight_nonneg hnonneg)) hscanx hscany

end Quantile

/-- Two shipments, of four days and of two. -/
def shipmentDurations : List (ForecastDurationObservation ℝ) :=
  [{ observedAt := 0, durationDays := some 4 }, { observedAt := DAY_MS, durationDays := some 2 }]

theorem weighted_duration_quantile_sample : ∃ x y,
    weightedDurationQuantile realFunctions shipmentDurations (1 / 2) (2 * DAY_MS) [] = some x ∧
      weightedDurationQuantile realFunctions shipmentDurations (13 / 20) (2 * DAY_MS) [] = some y ∧
      x ∈ (weightedDurations realFunctions shipmentDurations (2 * DAY_MS) []).map Prod.fst ∧
      1 / 2 * WeightedScan.totalWeight (weightedDurations realFunctions shipmentDurations (2 * DAY_MS) []) ≤
        weightUpTo x (weightedDurations realFunctions shipmentDurations (2 * DAY_MS) []) ∧ x ≤ y :=
  weighted_duration_quantile (fun _ => Real.rpow_pos_of_pos (by norm_num) _)
    (by simp [weightedDurations, durationSource, shipmentDurations]) (by norm_num) (by norm_num) (by norm_num)

end AmoAnalytics.Reports.Forecast
