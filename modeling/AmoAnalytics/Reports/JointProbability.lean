import AmoAnalytics.Lib.WeightedIncrements
import AmoAnalytics.Reports.ForecastModel

/-!
# Paid and shipped

The probability that a deal is paid and shipped within the days that are left: each day's gain of the payment curve is
weighed with the probability that the shipment takes no longer than the rest. The payment curve is made monotone where
it is built; the estimate of the shipment is not.
-/

namespace AmoAnalytics.Reports.Forecast

open WeightedIncrements

/-! ## `revenue-forecast-engine.ts` -/

/-- What both estimates of a deal read. -/
structure DealView where
  now : ℤ
  features : ForecastFeatureSet

/-- The history that the payment of a deal is estimated from. -/
structure PaymentHistory (K : Type) where
  elapsedStageDays : K
  pipelineEpisodes : List ForecastDeadlineEpisode
  stageEpisodes : List ForecastDeadlineEpisode

/-- The variables of the loop over the days. -/
structure JointTotals (K : Type) where
  jointProbability : K
  weightedShippingProbability : K
  previousPaymentProbability : K

section Engine

variable {K : Type} [Field K] [LinearOrder K] [FloorRing K] (fns : MathFunctions K) (view : DealView)

def broadEstimate (payment : PaymentHistory K) (daysLeft : K) : ForecastProbabilityEstimate K :=
  scoreDeadlineProbability fns payment.pipelineEpisodes
    { now := view.now
      elapsedDays := some payment.elapsedStageDays
      currentFeatures := some view.features
      priorProbability := some 0.2
      priorWeight := some 8 } daysLeft

/-- The options of the payment curve. -/
def paymentOptions (payment : PaymentHistory K) (daysLeft : K) : ScoreOptions K where
  now := view.now
  elapsedDays := some payment.elapsedStageDays
  currentFeatures := some view.features
  priorProbability := some (broadEstimate fns view payment daysLeft).probability
  priorWeight := some 8

def paymentCurve (payment : PaymentHistory K) (daysLeft : K) : List (ForecastProbabilityEstimate K) :=
  buildDeadlineProbabilityCurve fns payment.stageEpisodes (paymentOptions fns view payment daysLeft)
    ((⌈daysLeft⌉ : ℤ) : K)

def shippingEstimate (assemblyStartEpisodes : List ForecastDeadlineEpisode) (remainingShippingDays : K) :
    ForecastProbabilityEstimate K :=
  scoreDeadlineProbability fns assemblyStartEpisodes
    { now := view.now
      elapsedDays := some 0
      currentFeatures := some view.features
      priorProbability := some 0.35
      priorWeight := some 8 } remainingShippingDays

/-- The body of the loop. -/
def jointStep (assemblyStartEpisodes : List ForecastDeadlineEpisode) (daysLeft : K) (totals : JointTotals K)
    (estimate : ForecastProbabilityEstimate K × ℕ) : JointTotals K :=
  let paymentOnDayProbability := max 0 (estimate.1.probability - totals.previousPaymentProbability)
  let remainingShippingDays := max 0 (daysLeft - (estimate.2 : K))
  let shipping := (shippingEstimate fns view assemblyStartEpisodes remainingShippingDays).probability
  { jointProbability := totals.jointProbability + paymentOnDayProbability * shipping
    weightedShippingProbability := totals.weightedShippingProbability + paymentOnDayProbability * shipping
    previousPaymentProbability := estimate.1.probability }

def jointTotals (assemblyStartEpisodes : List ForecastDeadlineEpisode) (payment : PaymentHistory K) (daysLeft : K) :
    JointTotals K :=
  ((paymentCurve fns view payment daysLeft).zipIdx 1).foldl (jointStep fns view assemblyStartEpisodes daysLeft)
    ⟨0, 0, 0⟩

/-- `probability` of the estimate of a deal. -/
def jointProbability (assemblyStartEpisodes : List ForecastDeadlineEpisode) (payment : PaymentHistory K)
    (daysLeft : K) : K :=
  clamp (jointTotals fns view assemblyStartEpisodes payment daysLeft).jointProbability 0 0.995

/-- `shippingProbability` of the prediction of a deal. -/
def shippingProbability (assemblyStartEpisodes : List ForecastDeadlineEpisode) (payment : PaymentHistory K)
    (daysLeft : K) : K :=
  let totals := jointTotals fns view assemblyStartEpisodes payment daysLeft
  if 0 < totals.previousPaymentProbability then
    totals.weightedShippingProbability / totals.previousPaymentProbability
  else 0

/-- `paymentProbability` of the prediction of a deal, the last value of the payment curve. -/
def finalPaymentProbability (payment : PaymentHistory K) (daysLeft : K) : K :=
  ((paymentCurve fns view payment daysLeft).getLast?.getD (broadEstimate fns view payment daysLeft)).probability

/-! ## Growing horizons -/

/-- The joint probability does not decrease when the horizon grows. -/
def JointGrows (assemblyStartEpisodes : List ForecastDeadlineEpisode) (payment : PaymentHistory K) : Prop :=
  ∀ daysLeft longer : K, daysLeft ≤ longer →
    jointProbability fns view assemblyStartEpisodes payment daysLeft ≤
      jointProbability fns view assemblyStartEpisodes payment longer

/-- The probability that a shipment takes at most some days does not fall with the days. -/
def ShippingGrows (assemblyStartEpisodes : List ForecastDeadlineEpisode) : Prop :=
  ∀ days longer : K, days ≤ longer → (shippingEstimate fns view assemblyStartEpisodes days).probability ≤
    (shippingEstimate fns view assemblyStartEpisodes longer).probability

/-- The curve of a longer horizon, whose prior is that of the horizon, is on no day lower. -/
def CurveGrows (payment : PaymentHistory K) : Prop :=
  ∀ daysLeft longer : K, daysLeft ≤ longer → ∀ (i : ℕ) (estimate estimate' : ForecastProbabilityEstimate K),
    (paymentCurve fns view payment daysLeft)[i]? = some estimate →
    (paymentCurve fns view payment longer)[i]? = some estimate' → estimate.probability ≤ estimate'.probability

end Engine

/-! ## The loop over the days -/

section Loop

variable {K : Type} [Field K] [LinearOrder K] [FloorRing K] (fns : MathFunctions K) (view : DealView)

/-- The highest estimate of the first days. -/
def paidBy (payment : PaymentHistory K) (daysLeft : K) (d : ℕ) : K :=
  ((List.range' 1 d).map fun day : ℕ => (scoreDeadlineProbability fns payment.stageEpisodes
    (paymentOptions fns view payment daysLeft) (day : K)).probability).foldl max 0

theorem paidBy_succ (payment : PaymentHistory K) (daysLeft : K) (d : ℕ) :
    paidBy fns view payment daysLeft (d + 1) = max (paidBy fns view payment daysLeft d)
      (scoreDeadlineProbability fns payment.stageEpisodes (paymentOptions fns view payment daysLeft)
        ((1 + d : ℕ) : K)).probability := by
  unfold paidBy
  rw [List.range'_concat, List.map_append, List.foldl_append, one_mul]
  rfl

theorem paidBy_mono (payment : PaymentHistory K) (daysLeft : K) : Monotone (paidBy fns view payment daysLeft) :=
  monotone_nat_of_le_succ fun d => by
    rw [paidBy_succ]
    exact le_max_left _ _

variable [IsStrictOrderedRing K] (assemblyStartEpisodes : List ForecastDeadlineEpisode)

/-- The weight of a payment on the day after `d`. -/
def shippingAfter (daysLeft : K) (d : ℕ) : K :=
  (shippingEstimate fns view assemblyStartEpisodes (max 0 (daysLeft - ((1 + d : ℕ) : K)))).probability

/-- The loop weighs the increments of the curve. -/
theorem foldl_jointStep (daysLeft : K) {P : ℕ → K} (hP : Monotone P) (hstart : P 0 = 0)
    (curve : List (ForecastProbabilityEstimate K))
    (hcurve : curve.map ForecastProbabilityEstimate.probability = (List.range curve.length).map fun i => P (i + 1)) :
    (curve.zipIdx 1).foldl (jointStep fns view assemblyStartEpisodes daysLeft) ⟨0, 0, 0⟩ =
      let joint := weightedIncrements P (shippingAfter fns view assemblyStartEpisodes daysLeft) curve.length
      ⟨joint, joint, P curve.length⟩ := by
  induction curve using List.reverseRecOn with
  | nil => simp [weightedIncrements, hstart]
  | append_singleton curve estimate ih =>
    rw [List.map_append, List.length_append, List.length_singleton, List.range_succ, List.map_append] at hcurve
    obtain ⟨hbefore, hlast⟩ := List.append_inj hcurve (by simp)
    have hvalue : estimate.probability = P (curve.length + 1) := List.singleton_inj.1 hlast
    rw [List.zipIdx_append, List.foldl_append, ih hbefore]
    unfold weightedIncrements
    dsimp only
    rw [List.length_append, List.length_singleton, Finset.sum_range_succ]
    simp only [List.zipIdx_singleton, List.foldl_cons, List.foldl_nil, jointStep, hvalue,
      max_eq_right (sub_nonneg.2 (hP curve.length.le_succ))]
    rfl

theorem length_paymentCurve (payment : PaymentHistory K) (daysLeft : K) :
    (paymentCurve fns view payment daysLeft).length = (max 0 ⌈daysLeft⌉).toNat := by
  unfold paymentCurve buildDeadlineProbabilityCurve
  rw [length_curveFrom, List.length_range', Int.ceil_intCast]

theorem getElem?_paymentCurve (payment : PaymentHistory K) (daysLeft : K) {i : ℕ}
    (hi : i < (paymentCurve fns view payment daysLeft).length) :
    ((paymentCurve fns view payment daysLeft)[i]?).map ForecastProbabilityEstimate.probability =
      some (paidBy fns view payment daysLeft (i + 1)) := by
  have hdays := length_paymentCurve fns view payment daysLeft
  unfold paymentCurve buildDeadlineProbabilityCurve at hi hdays ⊢
  rw [length_curveFrom, List.length_range'] at hi
  have hday : (List.range' 1 (max 0 ⌈((⌈daysLeft⌉ : ℤ) : K)⌉).toNat)[i]? = some (i + 1) := by
    rw [List.getElem?_range' hi]
    congr 1
    omega
  rw [getElem?_curveFrom, hday, List.take_range'_of_length_ge (by omega)]
  unfold paidBy
  simp [← List.map_eq_flatMap, Function.comp_def]

theorem map_paymentCurve (payment : PaymentHistory K) (daysLeft : K) :
    (paymentCurve fns view payment daysLeft).map ForecastProbabilityEstimate.probability =
      (List.range (paymentCurve fns view payment daysLeft).length).map
        fun i => paidBy fns view payment daysLeft (i + 1) := by
  refine List.ext_getElem? fun i => ?_
  rw [List.getElem?_map, List.getElem?_map]
  rcases lt_or_ge i (paymentCurve fns view payment daysLeft).length with hi | hi
  · rw [getElem?_paymentCurve fns view payment daysLeft hi, List.getElem?_range hi]
    rfl
  · rw [List.getElem?_eq_none hi, List.getElem?_eq_none (by simpa using hi)]
    rfl

theorem jointTotals_eq (payment : PaymentHistory K) (daysLeft : K) :
    jointTotals fns view assemblyStartEpisodes payment daysLeft =
      let days := (max 0 ⌈daysLeft⌉).toNat
      let joint := weightedIncrements (paidBy fns view payment daysLeft)
        (shippingAfter fns view assemblyStartEpisodes daysLeft) days
      ⟨joint, joint, paidBy fns view payment daysLeft days⟩ := by
  unfold jointTotals
  rw [foldl_jointStep fns view assemblyStartEpisodes daysLeft (paidBy_mono fns view payment daysLeft) rfl _
    (map_paymentCurve fns view payment daysLeft), length_paymentCurve]

/-! ## Bounds -/

theorem scoreDeadlineProbability_le (episodes : List ForecastDeadlineEpisode) (options : ScoreOptions K)
    (horizon : K) : (scoreDeadlineProbability fns episodes options horizon).probability ≤ 0.995 := by
  simp only [scoreDeadlineProbability]
  split
  · exact (by norm_num : (0 : K) ≤ 0.995)
  · exact (scoreWeightedBinary_probability fns _ options).2

theorem paidBy_le (payment : PaymentHistory K) (daysLeft : K) (d : ℕ) :
    paidBy fns view payment daysLeft d ≤ 0.995 := by
  induction d with
  | zero => exact (by norm_num : (0 : K) ≤ 0.995)
  | succ d ih =>
    rw [paidBy_succ]
    exact max_le ih (scoreDeadlineProbability_le fns _ _ _)

theorem shippingAfter_bounds (daysLeft : K) (d : ℕ) :
    0 ≤ shippingAfter fns view assemblyStartEpisodes daysLeft d ∧
      shippingAfter fns view assemblyStartEpisodes daysLeft d ≤ 1 :=
  scoreDeadlineProbability_probability fns _ _ _

theorem finalPaymentProbability_eq (payment : PaymentHistory K) (daysLeft : K) :
    finalPaymentProbability fns view payment daysLeft =
      paidBy fns view payment daysLeft (max 0 ⌈daysLeft⌉).toNat := by
  have hlength := length_paymentCurve fns view payment daysLeft
  unfold finalPaymentProbability
  rcases Nat.eq_zero_or_pos (max 0 ⌈daysLeft⌉).toNat with hnone | hsome
  · have hceil : ⌈daysLeft⌉ ≤ 0 := by omega
    have hleft : daysLeft ≤ 0 := by exact_mod_cast Int.ceil_le.1 hceil
    rw [hnone, List.length_eq_zero_iff.1 (hlength.trans hnone)]
    simp only [List.getLast?_nil, Option.getD_none, broadEstimate, scoreDeadlineProbability, max_eq_left hleft,
      le_rfl,
      if_true, emptyEstimate]
    rfl
  · have hlast := getElem?_paymentCurve fns view payment daysLeft (i := (max 0 ⌈daysLeft⌉).toNat - 1) (by omega)
    rw [Nat.sub_add_cancel hsome] at hlast
    rw [List.getLast?_eq_getElem?, hlength]
    obtain ⟨estimate, hestimate, hvalue⟩ := Option.map_eq_some_iff.1 hlast
    rw [hestimate, Option.getD_some, hvalue]

/-- The sum stays under the last value of the curve, so the clamp does nothing. -/
theorem jointProbability_eq (payment : PaymentHistory K) (daysLeft : K) :
    jointProbability fns view assemblyStartEpisodes payment daysLeft =
      weightedIncrements (paidBy fns view payment daysLeft)
        (shippingAfter fns view assemblyStartEpisodes daysLeft) (max 0 ⌈daysLeft⌉).toNat := by
  have hmono := paidBy_mono fns view payment daysLeft
  have hlow := weightedIncrements_nonneg hmono
    (fun d => (shippingAfter_bounds fns view assemblyStartEpisodes daysLeft d).1) (max 0 ⌈daysLeft⌉).toNat
  have hhigh := weightedIncrements_le hmono
    (fun d => (shippingAfter_bounds fns view assemblyStartEpisodes daysLeft d).2) (max 0 ⌈daysLeft⌉).toNat
  have hstart : paidBy fns view payment daysLeft 0 = 0 := rfl
  rw [hstart, sub_zero] at hhigh
  unfold jointProbability clamp
  rw [jointTotals_eq, max_eq_left hlow, min_eq_left (hhigh.trans (paidBy_le fns view payment daysLeft _))]

theorem jointProbability_bounds (payment : PaymentHistory K) (daysLeft : K) :
    0 ≤ jointProbability fns view assemblyStartEpisodes payment daysLeft ∧
      jointProbability fns view assemblyStartEpisodes payment daysLeft ≤ 1 ∧
      jointProbability fns view assemblyStartEpisodes payment daysLeft ≤
        finalPaymentProbability fns view payment daysLeft := by
  have hfinal : jointProbability fns view assemblyStartEpisodes payment daysLeft ≤
      finalPaymentProbability fns view payment daysLeft := by
    have hgain := weightedIncrements_le (paidBy_mono fns view payment daysLeft)
      (fun d => (shippingAfter_bounds fns view assemblyStartEpisodes daysLeft d).2) (max 0 ⌈daysLeft⌉).toNat
    have hstart : paidBy fns view payment daysLeft 0 = 0 := rfl
    rwa [jointProbability_eq, finalPaymentProbability_eq, ← sub_zero (paidBy fns view payment daysLeft _), ← hstart]
  have hone : finalPaymentProbability fns view payment daysLeft ≤ 1 := by
    rw [finalPaymentProbability_eq]
    exact (paidBy_le fns view payment daysLeft _).trans (by norm_num)
  exact ⟨(clamp_mem (by norm_num)).1, hfinal.trans hone, hfinal⟩

/-- The share of the shipments among the payments is a probability. -/
theorem shippingProbability_bounds (payment : PaymentHistory K) (daysLeft : K) :
    0 ≤ shippingProbability fns view assemblyStartEpisodes payment daysLeft ∧
      shippingProbability fns view assemblyStartEpisodes payment daysLeft ≤ 1 := by
  have hmono := paidBy_mono fns view payment daysLeft
  have hlow := weightedIncrements_nonneg hmono
    (fun d => (shippingAfter_bounds fns view assemblyStartEpisodes daysLeft d).1) (max 0 ⌈daysLeft⌉).toNat
  have hhigh := weightedIncrements_le hmono
    (fun d => (shippingAfter_bounds fns view assemblyStartEpisodes daysLeft d).2) (max 0 ⌈daysLeft⌉).toNat
  have hstart : paidBy fns view payment daysLeft 0 = 0 := rfl
  rw [hstart, sub_zero] at hhigh
  unfold shippingProbability
  rw [jointTotals_eq]
  dsimp only
  split_ifs with hpaid
  · exact ⟨div_nonneg hlow hpaid.le, (div_le_one hpaid).2 hhigh⟩
  · exact ⟨le_rfl, zero_le_one⟩

/-! ## Growing horizons -/

/-- An earlier payment and a longer horizon leave more time to the shipment. -/
theorem jointGrows_of_grows {payment : PaymentHistory K} (hcurve : CurveGrows fns view payment)
    (hshipping : ShippingGrows fns view assemblyStartEpisodes) :
    JointGrows fns view assemblyStartEpisodes payment := by
  intro daysLeft longer hle
  have hfalls : Antitone (shippingAfter fns view assemblyStartEpisodes daysLeft) := fun d e hde =>
    hshipping _ _ (max_le_max le_rfl (sub_le_sub_left (Nat.cast_le.2 (Nat.add_le_add_left hde 1)) daysLeft))
  have hlonger : ∀ d, shippingAfter fns view assemblyStartEpisodes daysLeft d ≤
      shippingAfter fns view assemblyStartEpisodes longer d := fun d =>
    hshipping _ _ (max_le_max le_rfl (sub_le_sub_right hle _))
  have hdays : (max 0 ⌈daysLeft⌉).toNat ≤ (max 0 ⌈longer⌉).toNat :=
    Int.toNat_le_toNat (max_le_max le_rfl (Int.ceil_mono hle))
  have hpaid : ∀ d ≤ (max 0 ⌈daysLeft⌉).toNat,
      paidBy fns view payment daysLeft d ≤ paidBy fns view payment longer d := by
    intro d hd
    cases d with
    | zero => exact le_rfl
    | succ i =>
      obtain ⟨estimate, hestimate, hvalue⟩ := Option.map_eq_some_iff.1 (getElem?_paymentCurve fns view payment
        daysLeft (i := i) (by rw [length_paymentCurve]; omega))
      obtain ⟨estimate', hestimate', hvalue'⟩ := Option.map_eq_some_iff.1 (getElem?_paymentCurve fns view payment
        longer (i := i) (by rw [length_paymentCurve]; omega))
      rw [← hvalue, ← hvalue']
      exact hcurve daysLeft longer hle i estimate estimate' hestimate hestimate'
  have hstart : paidBy fns view payment daysLeft 0 = paidBy fns view payment longer 0 := rfl
  rw [jointProbability_eq, jointProbability_eq]
  exact (weightedIncrements_le_of_le hfalls
    (fun d => (shippingAfter_bounds fns view assemblyStartEpisodes daysLeft d).1) _ hstart hpaid).trans
    (weightedIncrements_mono (paidBy_mono fns view payment longer) hlonger
      (fun d => (shippingAfter_bounds fns view assemblyStartEpisodes longer d).1) hdays)

/-- A deal without any history of payments. -/
def noPayments : PaymentHistory K := ⟨0, [], []⟩

/-- What the prior alone gives on every day. -/
def priorPayment : K :=
  let broad := scoreWeightedBinary fns [] { now := view.now
                                            elapsedDays := some (0 : K)
                                            currentFeatures := some view.features
                                            priorProbability := some 0.2
                                            priorWeight := some 8 }
  (scoreWeightedBinary fns [] { now := view.now
                                elapsedDays := some 0
                                currentFeatures := some view.features
                                priorProbability := some broad.probability
                                priorWeight := some 8 }).probability

theorem priorPayment_pos : 0 < priorPayment fns view (K := K) :=
  lt_of_lt_of_le (by norm_num) (scoreWeightedBinary_probability fns _ _).1

omit [IsStrictOrderedRing K] in
theorem score_noPayments {daysLeft : K} (hleft : 0 < daysLeft) {day : K} (hday : 0 < day) :
    (scoreDeadlineProbability fns [] (paymentOptions fns view noPayments daysLeft) day).probability =
      priorPayment fns view := by
  unfold paymentOptions broadEstimate noPayments scoreDeadlineProbability priorPayment
  simp [max_eq_right hleft.le, max_eq_right hday.le, not_le.2 hleft, not_le.2 hday]

/-- Without a history the curve is flat. -/
theorem paidBy_noPayments {daysLeft : K} (hleft : 0 < daysLeft) (d : ℕ) :
    paidBy fns view noPayments daysLeft (d + 1) = priorPayment fns view := by
  have hscore : ∀ d : ℕ, (scoreDeadlineProbability fns (noPayments (K := K)).stageEpisodes
      (paymentOptions fns view noPayments daysLeft) ((1 + d : ℕ) : K)).probability = priorPayment fns view :=
    fun d => score_noPayments fns view hleft (Nat.cast_pos.2 (by omega))
  induction d with
  | zero =>
    rw [paidBy_succ, hscore]
    exact max_eq_right (priorPayment_pos fns view).le
  | succ d ih => rw [paidBy_succ, hscore, ih, max_self]

theorem curveGrows_noPayments : CurveGrows fns view (noPayments (K := K)) := by
  have hvalue : ∀ (daysLeft : K) (i : ℕ) (estimate : ForecastProbabilityEstimate K),
      (paymentCurve fns view noPayments daysLeft)[i]? = some estimate →
      estimate.probability = priorPayment fns view := by
    intro daysLeft i estimate hestimate
    obtain ⟨hi, -⟩ := List.getElem?_eq_some_iff.1 hestimate
    have hpaid := getElem?_paymentCurve fns view noPayments daysLeft hi
    rw [hestimate] at hpaid
    rw [length_paymentCurve] at hi
    have hleft : 0 < daysLeft := Int.ceil_pos.1 (by omega)
    exact (Option.some.inj hpaid).trans (paidBy_noPayments fns view hleft i)
  intro daysLeft longer _ i estimate estimate' h h'
  rw [hvalue daysLeft i estimate h, hvalue longer i estimate' h']

/-- Without a history of payments the payment is expected on the first day. -/
theorem jointProbability_noPayments {days : K} (hdays : 0 < days) :
    jointProbability fns view assemblyStartEpisodes noPayments (days + 1) =
      priorPayment fns view * (shippingEstimate fns view assemblyStartEpisodes days).probability := by
  obtain ⟨n, hn⟩ : ∃ n, (max 0 ⌈days + 1⌉).toNat = n + 1 := by
    have hpos : 0 < ⌈days + 1⌉ := Int.ceil_pos.2 (by linarith)
    exact ⟨(max 0 ⌈days + 1⌉).toNat - 1, by omega⟩
  have hleft : 0 < days + 1 := by linarith
  have hlater : ∀ m, weightedIncrements (paidBy fns view noPayments (days + 1))
      (shippingAfter fns view assemblyStartEpisodes (days + 1)) (m + 1) =
        priorPayment fns view * (shippingEstimate fns view assemblyStartEpisodes days).probability := by
    intro m
    induction m with
    | zero =>
      unfold weightedIncrements shippingAfter
      rw [Finset.sum_range_one, paidBy_noPayments fns view hleft]
      simp [paidBy, max_eq_right hdays.le]
    | succ m ih =>
      unfold weightedIncrements at ih ⊢
      rw [Finset.sum_range_succ, ih, paidBy_noPayments fns view hleft, paidBy_noPayments fns view hleft, sub_self,
        zero_mul, add_zero]
  rw [jointProbability_eq, hn, hlater]

theorem shippingGrows_of_jointGrows (h : JointGrows fns view assemblyStartEpisodes (noPayments (K := K))) :
    ShippingGrows fns view assemblyStartEpisodes := by
  intro days longer hle
  rcases le_or_gt days 0 with hnone | hpos
  · have hzero : (shippingEstimate fns view assemblyStartEpisodes days).probability = 0 := by
      simp [shippingEstimate, scoreDeadlineProbability, max_eq_left hnone, emptyEstimate]
    rw [hzero]
    exact (scoreDeadlineProbability_probability fns _ _ _).1
  · have hjoint := h (days + 1) (longer + 1) (by linarith)
    rw [jointProbability_noPayments fns view assemblyStartEpisodes hpos,
      jointProbability_noPayments fns view assemblyStartEpisodes (hpos.trans_le hle)] at hjoint
    exact le_of_mul_le_mul_left hjoint (priorPayment_pos fns view)

/-- **The joint probability.** It is a probability and at most the last value of the payment curve. With the horizon
it grows, for every payment curve that does so, if and only if the estimate of the shipment grows. -/
theorem joint_probability :
    (∀ (payment : PaymentHistory K) (daysLeft : K),
      0 ≤ jointProbability fns view assemblyStartEpisodes payment daysLeft ∧
      jointProbability fns view assemblyStartEpisodes payment daysLeft ≤ 1 ∧
      jointProbability fns view assemblyStartEpisodes payment daysLeft ≤
        finalPaymentProbability fns view payment daysLeft) ∧
    ((∀ payment : PaymentHistory K, CurveGrows fns view payment →
        JointGrows fns view assemblyStartEpisodes payment) ↔
      ShippingGrows (K := K) fns view assemblyStartEpisodes) :=
  ⟨jointProbability_bounds fns view assemblyStartEpisodes,
    fun h => shippingGrows_of_jointGrows fns view assemblyStartEpisodes (h noPayments
      (curveGrows_noPayments fns view)),
    fun hshipping _ hcurve => jointGrows_of_grows fns view assemblyStartEpisodes hcurve hshipping⟩

end Loop

/-- A history of one deal that was shipped and one payment that is open. -/
theorem joint_probability_sample :
    let payment : PaymentHistory ℝ := ⟨1, [wonEpisode], [wonEpisode]⟩
    jointProbability realFunctions ⟨3 * DAY_MS, ⟨[], []⟩⟩ [wonEpisode] payment (5 / 2) ≤
      finalPaymentProbability realFunctions ⟨3 * DAY_MS, ⟨[], []⟩⟩ payment (5 / 2) :=
  ((joint_probability realFunctions ⟨3 * DAY_MS, ⟨[], []⟩⟩ [wonEpisode]).1 ⟨1, [wonEpisode], [wonEpisode]⟩
    (5 / 2)).2.2

theorem shippingProbability_bounds_sample :
    shippingProbability realFunctions ⟨3 * DAY_MS, ⟨[], []⟩⟩ [wonEpisode] (⟨1, [wonEpisode], [wonEpisode]⟩ :
      PaymentHistory ℝ) (5 / 2) ≤ 1 :=
  (shippingProbability_bounds realFunctions ⟨3 * DAY_MS, ⟨[], []⟩⟩ [wonEpisode] _ _).2

/-! ## A shipment estimate that falls -/

section Falling

theorem clamp_of_mem {value lo hi : ℝ} (hlo : lo ≤ value) (hhi : value ≤ hi) : clamp value lo hi = value := by
  unfold clamp
  rw [max_eq_left hlo, min_eq_left hhi]

/-- An adjustment of a base on the logit scale. -/
theorem sigmoid_logit {b a : ℝ} (hlo : 0.0001 ≤ b) (hhi : b ≤ 0.9999) :
    sigmoid realFunctions (logit realFunctions b + a) = 1 / (1 + Real.exp (-a) * ((1 - b) / b)) := by
  have hb : 0 < b := lt_of_lt_of_le (by norm_num) hlo
  have hb' : 0 < 1 - b := by linarith [show (0.9999 : ℝ) < 1 by norm_num]
  have hexp : Real.exp (-(Real.log (b / (1 - b)) + a)) = Real.exp (-a) * ((1 - b) / b) := by
    rw [neg_add_rev, Real.exp_add, Real.exp_neg (Real.log _), Real.exp_log (div_pos hb hb'), inv_div]
  unfold sigmoid logit
  rw [clamp_of_mem hlo hhi]
  exact congrArg (fun x => 1 / (1 + x)) hexp

/-- The deals of one manager. -/
def managerKey : String := "manager:1"

/-- A shipment that took five days. -/
def shippedEpisode : ForecastDeadlineEpisode where
  entryAt := 0
  observedUntil := 5 * DAY_MS
  outcome := .won
  outcomeAt := some (5 * DAY_MS)
  featureKeys := [managerKey]

/-- A deal that is in assembly for fifteen days. -/
def openEpisode : ForecastDeadlineEpisode where
  entryAt := 45 * DAY_MS
  observedUntil := 60 * DAY_MS
  outcome := .stillOpen
  featureKeys := [managerKey]

/-- A deal of somebody else that was lost after five days. -/
def lostEpisode : ForecastDeadlineEpisode where
  entryAt := 0
  observedUntil := 5 * DAY_MS
  outcome := .lost
  outcomeAt := some (5 * DAY_MS)

def assemblies : List ForecastDeadlineEpisode :=
  List.replicate 3 shippedEpisode ++ openEpisode :: List.replicate 40 lostEpisode

/-- A deal of the manager sixty days after the first entries. -/
def managerView : DealView := ⟨60 * DAY_MS, ⟨[managerKey], []⟩⟩

def assemblyOptions : ScoreOptions ℝ where
  now := managerView.now
  elapsedDays := some 0
  currentFeatures := some managerView.features
  priorProbability := some 0.35
  priorWeight := some 8

/-- The weight of the open deal. -/
noncomputable def openWeight : ℝ := recencyWeight realFunctions (45 * DAY_MS) (60 * DAY_MS) 60

theorem openWeight_bounds : 1 / 2 ≤ openWeight ∧ openWeight ≤ 1 := by
  have hweight : openWeight = (2 : ℝ)⁻¹ ^ (1 / 4 : ℝ) := by
    unfold openWeight recencyWeight durationDays realFunctions DAY_MS
    norm_num
  rw [hweight]
  constructor
  · calc (1 / 2 : ℝ) = (2 : ℝ)⁻¹ ^ (1 : ℝ) := by norm_num
      _ ≤ (2 : ℝ)⁻¹ ^ (1 / 4 : ℝ) := Real.rpow_le_rpow_of_exponent_ge (by norm_num) (by norm_num) (by norm_num)
  · exact Real.rpow_le_one (by norm_num) (by norm_num) (by norm_num)

theorem shippedObservation {horizonDays : ℝ} (h : 5 ≤ horizonDays) :
    deadlineObservation realFunctions assemblyOptions 0 horizonDays shippedEpisode =
      some ⟨true, 1 / 2, [managerKey]⟩ := by
  unfold deadlineObservation shippedEpisode assemblyOptions managerView recencyWeight durationDays realFunctions
    DAY_MS
  norm_num [h]
  exact fun hopen => nomatch hopen

theorem lostObservation (horizonDays : ℝ) :
    deadlineObservation realFunctions assemblyOptions 0 horizonDays lostEpisode = some ⟨false, 1 / 2, []⟩ := by
  unfold deadlineObservation lostEpisode assemblyOptions managerView recencyWeight durationDays realFunctions DAY_MS
  norm_num
  exact ⟨(nomatch ·), (nomatch ·)⟩

theorem openObservation (horizonDays : ℝ) :
    deadlineObservation realFunctions assemblyOptions 0 horizonDays openEpisode =
      if 15 < horizonDays then none else some ⟨false, openWeight, [managerKey]⟩ := by
  unfold deadlineObservation openEpisode openWeight assemblyOptions managerView durationDays DAY_MS
  norm_num

/-- What the shipped and the lost deals give, with the observations of the open one. -/
noncomputable def observedWith (opens : List (WeightedBinaryObservation ℝ)) : List (WeightedBinaryObservation ℝ) :=
  List.replicate 3 ⟨true, 1 / 2, [managerKey]⟩ ++ (opens ++ List.replicate 40 ⟨false, 1 / 2, []⟩)

theorem observed_eq {horizonDays : ℝ} (h : 5 ≤ horizonDays) :
    assemblies.filterMap (deadlineObservation realFunctions assemblyOptions 0 horizonDays) =
      observedWith (if 15 < horizonDays then [] else [⟨false, openWeight, [managerKey]⟩]) := by
  unfold assemblies observedWith
  rw [List.filterMap_append, List.filterMap_replicate_of_some (shippedObservation h), List.filterMap_cons,
    List.filterMap_replicate_of_some (lostObservation horizonDays), openObservation]
  split_ifs <;> rfl

theorem weights_observedWith (opens : List (WeightedBinaryObservation ℝ)) :
    totalWeight (observedWith opens) = 43 / 2 + totalWeight opens ∧
      winsWeight (observedWith opens) = 3 / 2 + winsWeight opens ∧
      (observedWith opens).filter (·.featureKeys.contains managerKey) =
        List.replicate 3 ⟨true, 1 / 2, [managerKey]⟩ ++ opens.filter (·.featureKeys.contains managerKey) := by
  unfold observedWith totalWeight winsWeight
  refine ⟨?_, ?_, ?_⟩
  · simp
    ring
  · simp
    ring
  · simp [List.filter_append]

/-- The score reads one feature. -/
theorem probability_observedWith (opens : List (WeightedBinaryObservation ℝ)) :
    let score := scoreWeightedBinary realFunctions (observedWith opens) assemblyOptions
    score.probability = clamp (sigmoid realFunctions (logit realFunctions score.baseProbability +
      clamp (((featureAdjustment realFunctions (observedWith opens) managerView.features score.baseProbability
        managerKey).map Prod.fst).getD 0) (-1.25) 1.25)) 0.005 0.995 := by
  intro score
  have hsum : ([managerKey].filterMap (featureAdjustment realFunctions (observedWith opens) managerView.features
      score.baseProbability)).map Prod.fst = (((featureAdjustment realFunctions (observedWith opens)
        managerView.features score.baseProbability managerKey).map Prod.fst).toList) := by
    cases h : featureAdjustment realFunctions (observedWith opens) managerView.features score.baseProbability
      managerKey with
    | none => simp [h]
    | some adjustment => simp [h]
  have hvalue : score.probability = clamp (sigmoid realFunctions (logit realFunctions score.baseProbability +
      clamp (([managerKey].filterMap (featureAdjustment realFunctions (observedWith opens) managerView.features
        score.baseProbability)).map Prod.fst).sum (-1.25) 1.25)) 0.005 0.995 := rfl
  rw [hvalue, hsum]
  cases featureAdjustment realFunctions (observedWith opens) managerView.features score.baseProbability managerKey
    with
  | none => rfl
  | some adjustment => simp

theorem base_observedWith {opens : List (WeightedBinaryObservation ℝ)} (hwins : winsWeight opens = 0)
    (hlo : 0 ≤ totalWeight opens) (hhi : totalWeight opens ≤ 1) :
    (scoreWeightedBinary realFunctions (observedWith opens) assemblyOptions).baseProbability =
      43 / (295 + 10 * totalWeight opens) := by
  obtain ⟨htotal, hwon, -⟩ := weights_observedWith opens
  have hprior : clamp (assemblyOptions.priorProbability.getD 0.2) 0.01 0.99 = (0.35 : ℝ) :=
    clamp_of_mem (by norm_num [assemblyOptions]) (by norm_num [assemblyOptions])
  have hweight : max 1 (assemblyOptions.priorWeight.getD 8) = (8 : ℝ) := max_eq_right (by norm_num [assemblyOptions])
  have hshare : (winsWeight (observedWith opens) + 0.35 * 8) / max (totalWeight (observedWith opens) + 8) 1 =
      43 / (295 + 10 * totalWeight opens) := by
    rw [htotal, hwon, hwins, max_eq_left (by linarith), div_eq_div_iff (by linarith) (by linarith)]
    ring
  unfold scoreWeightedBinary
  dsimp only
  rw [hprior, hweight, hshare]
  exact clamp_of_mem (by rw [le_div_iff₀ (by linarith)]; linarith) (by rw [div_le_iff₀ (by linarith)]; linarith)

/-- Without the open deal the feature has too little weight, and the score is the base. -/
theorem score_later : (scoreWeightedBinary realFunctions
    (observedWith []) assemblyOptions).probability = 43 / 295 := by
  have htotal : totalWeight ([] : List (WeightedBinaryObservation ℝ)) = 0 := rfl
  have hbase := base_observedWith (show winsWeight ([] : List (WeightedBinaryObservation ℝ)) = 0 from rfl)
    htotal.ge (htotal.trans_le zero_le_one)
  obtain ⟨-, -, hmatching⟩ := weights_observedWith []
  have hnone : featureAdjustment realFunctions (observedWith []) managerView.features
    (43 / 295) managerKey = none := by
    unfold featureAdjustment
    dsimp only
    rw [hmatching, if_pos (by norm_num [totalWeight])]
  have hzero : clamp (0 : ℝ) (-1.25) 1.25 = 0 := clamp_of_mem (by norm_num) (by norm_num)
  rw [htotal, mul_zero, add_zero] at hbase
  rw [probability_observedWith, hbase, hnone, Option.map_none, Option.getD_none, hzero,
    sigmoid_logit (by norm_num) (by norm_num), neg_zero, Real.exp_zero]
  exact (clamp_of_mem (by norm_num) (by norm_num)).trans (by norm_num)

theorem logit_gain {b p : ℝ} (hb : 0.0001 ≤ b) (hb' : b ≤ 0.15) (hp : 0.2 ≤ p) (hp' : p ≤ 0.9999) :
    1 / 4 ≤ logit realFunctions p - logit realFunctions b := by
  have hlow : Real.log (1 / 4) ≤ Real.log (p / (1 - p)) := by
    refine Real.log_le_log (by norm_num) ?_
    rw [div_le_div_iff₀ (by norm_num) (by linarith [show (0.9999 : ℝ) < 1 by norm_num])]
    linarith
  have hhigh : Real.log (b / (1 - b)) ≤ Real.log (3 / 16) := by
    refine Real.log_le_log (div_pos (by linarith [show (0 : ℝ) < 0.0001 by norm_num])
      (by linarith [show (0.15 : ℝ) < 1 by norm_num])) ?_
    rw [div_le_div_iff₀ (by linarith [show (0.15 : ℝ) < 1 by norm_num]) (by norm_num)]
    linarith
  have hratio : 1 / 4 ≤ Real.log (1 / 4) - Real.log (3 / 16) := by
    rw [← Real.log_div (by norm_num) (by norm_num)]
    exact le_trans (by norm_num) (Real.one_sub_inv_le_log_of_pos (by norm_num))
  unfold logit
  rw [clamp_of_mem (hp.trans' (by norm_num)) hp', clamp_of_mem hb (hb'.trans (by norm_num))]
  exact hratio.trans (sub_le_sub hlow hhigh)

theorem familyWeight_manager : familyWeight (familyOf managerKey) = (9 / 10 : ℝ) := by
  have hweight : (FAMILY_WEIGHTS.lookup (familyOf managerKey)).getD 0.15 = 9 / 10 := by decide +kernel
  unfold familyWeight
  rw [hweight]
  norm_num

/-- The deals of the manager, with the open one. -/
theorem matching_sooner : ∃ matching, (observedWith [⟨false, openWeight, [managerKey]⟩]).filter
    (·.featureKeys.contains managerKey) = matching ∧ totalWeight matching = 3 / 2 + openWeight ∧
      winsWeight matching = 3 / 2 := by
  obtain ⟨-, -, hmatching⟩ := weights_observedWith [⟨false, openWeight, [managerKey]⟩]
  refine ⟨_, hmatching, ?_, ?_⟩
  · simp [totalWeight]
    ring
  · simp [winsWeight]
    norm_num

/-- With the open deal the feature counts. -/
theorem adjustment_sooner : ∃ adjustment, featureAdjustment realFunctions
    (observedWith [⟨false, openWeight, [managerKey]⟩]) managerView.features (43 / (295 + 10 * openWeight))
      managerKey = some adjustment ∧ 9 / 200 ≤ adjustment.1 ∧ adjustment.1 ≤ 1 := by
  obtain ⟨hlo, hhi⟩ := openWeight_bounds
  set b := 43 / (295 + 10 * openWeight) with hb
  have hb₁ : 0.14 ≤ b := by
    rw [hb, le_div_iff₀ (by linarith)]
    linarith
  have hb₂ : b ≤ 0.144 := by
    rw [hb, div_le_iff₀ (by linarith)]
    linarith
  obtain ⟨matching, hmatching, htotal, hwins⟩ := matching_sooner
  have hpost₁ : 0.2 ≤ (3 / 2 + b * 14) / (3 / 2 + openWeight + 14) := by
    rw [le_div_iff₀ (by linarith)]
    linarith
  have hpost₂ : (3 / 2 + b * 14) / (3 / 2 + openWeight + 14) ≤ 0.9 := by
    rw [div_le_iff₀ (by linarith)]
    linarith
  have hgain := logit_gain (hb₁.trans' (by norm_num)) (hb₂.trans (by norm_num)) hpost₁ (hpost₂.trans (by norm_num))
  set gain := logit realFunctions ((3 / 2 + b * 14) / (3 / 2 + openWeight + 14)) - logit realFunctions b
  have hraw₁ : 1 / 4 ≤ clamp gain (-0.7) 0.7 := le_min (hgain.trans (le_max_left _ _)) (by norm_num)
  have hraw₂ : clamp gain (-0.7) 0.7 ≤ 0.7 := min_le_right _ _
  have hreliability₁ : 1 / 5 ≤ (3 / 2 + openWeight) / (3 / 2 + openWeight + 8) := by
    rw [div_le_div_iff₀ (by norm_num) (by linarith)]
    linarith
  have hreliability₂ : (3 / 2 + openWeight) / (3 / 2 + openWeight + 8) ≤ 1 := by
    rw [div_le_one (by linarith)]
    linarith
  have hadjustment₁ : 9 / 200 ≤ clamp gain (-0.7) 0.7 * (9 / 10) *
      ((3 / 2 + openWeight) / (3 / 2 + openWeight + 8)) := by
    nlinarith
  have hadjustment₂ : clamp gain (-0.7) 0.7 * (9 / 10) *
      ((3 / 2 + openWeight) / (3 / 2 + openWeight + 8)) ≤ 1 := by
    nlinarith
  unfold featureAdjustment
  dsimp only
  rw [hmatching, htotal, hwins, if_neg (by linarith), familyWeight_manager,
    clamp_of_mem (hpost₁.trans' (by norm_num)) (hpost₂.trans (by norm_num)),
    if_neg (by rw [abs_of_nonneg (by linarith)]; linarith)]
  exact ⟨_, rfl, hadjustment₁, hadjustment₂⟩

theorem score_sooner : 43 / 295 < (scoreWeightedBinary realFunctions
    (observedWith [⟨false, openWeight, [managerKey]⟩]) assemblyOptions).probability := by
  obtain ⟨hlo, hhi⟩ := openWeight_bounds
  have htotal : totalWeight [(⟨false, openWeight, [managerKey]⟩ : WeightedBinaryObservation ℝ)] = openWeight := by
    simp [totalWeight]
  have hbase := base_observedWith (show winsWeight [(⟨false, openWeight, [managerKey]⟩ :
    WeightedBinaryObservation ℝ)] = 0 by simp [winsWeight]) (by linarith) (by linarith)
  rw [htotal] at hbase
  obtain ⟨adjustment, hadjustment, hlow, hhigh⟩ := adjustment_sooner
  rw [probability_observedWith, hbase, hadjustment, Option.map_some, Option.getD_some,
    clamp_of_mem (hlow.trans' (by norm_num)) (hhigh.trans (by norm_num)),
    sigmoid_logit (by rw [le_div_iff₀ (by linarith)]; linarith) (by rw [div_le_iff₀ (by linarith)]; linarith)]
  have hodds : (1 - 43 / (295 + 10 * openWeight)) / (43 / (295 + 10 * openWeight)) =
      (252 + 10 * openWeight) / 43 := by
    have hpos : (295 + 10 * openWeight) ≠ 0 := by linarith
    field_simp
    ring
  have hexp : Real.exp (-adjustment.1) ≤ 200 / 209 := by
    rw [Real.exp_neg, inv_le_comm₀ (Real.exp_pos _) (by norm_num)]
    refine le_trans ?_ (Real.add_one_le_exp _)
    linarith
  have hpart : Real.exp (-adjustment.1) * ((252 + 10 * openWeight) / 43) < 252 / 43 := by
    calc Real.exp (-adjustment.1) * ((252 + 10 * openWeight) / 43)
        ≤ 200 / 209 * ((252 + 10 * openWeight) / 43) := mul_le_mul_of_nonneg_right hexp (by linarith)
      _ < 252 / 43 := by linarith
  have hpos : 0 < Real.exp (-adjustment.1) * ((252 + 10 * openWeight) / 43) :=
    mul_pos (Real.exp_pos _) (by linarith)
  rw [hodds]
  refine lt_min (lt_of_lt_of_le ?_ (le_max_left _ _)) (by norm_num)
  rw [div_lt_div_iff₀ (by norm_num) (by linarith)]
  linarith

end Falling

/-- When the time that is left to the shipment grows from ten days to twenty, a deal of fifteen days is left out, the
feature of its manager loses its weight, and the estimate falls. -/
theorem joint_probability_fails : ¬ JointGrows (K := ℝ) realFunctions managerView assemblies noPayments := by
  intro h
  have hgrows := shippingGrows_of_jointGrows realFunctions managerView assemblies h 10 20 (by norm_num)
  have hestimate : ∀ days : ℝ, 5 ≤ days → (shippingEstimate realFunctions managerView assemblies days).probability =
      (scoreWeightedBinary realFunctions
        (observedWith (if 15 < days then [] else [⟨false, openWeight,
          [managerKey]⟩])) assemblyOptions).probability := by
    intro days hdays
    rw [← observed_eq hdays]
    have hpos : 0 < days := by linarith
    unfold shippingEstimate scoreDeadlineProbability
    simp only [max_eq_right hpos.le, not_le.2 hpos, if_false, Option.getD_some, max_self]
    rfl
  rw [hestimate 10 (by norm_num), hestimate 20 (by norm_num), if_neg (by norm_num), if_pos (by norm_num),
    score_later] at hgrows
  exact absurd score_sooner (not_lt.2 hgrows)

end AmoAnalytics.Reports.Forecast
