import AmoAnalytics.CrmControl.Rules

/-!
# Counts, case states and manual review

`crm-control.logic.ts`: what an observation counts, the next state of a case, and which results
may be reviewed by hand.
-/

namespace AmoAnalytics.CrmControl

/-! ## Counts -/

/-- `CrmControlCounts`. -/
structure Counts where
  deals : ℕ := 0
  failedDeals : ℕ := 0
  violations : ℕ := 0
  review : ℕ := 0
  unknown : ℕ := 0
  passed : ℕ := 0
  reviewDeals : ℕ := 0
  unknownDeals : ℕ := 0
  checkedDeals : ℕ := 0
  unresolvedDeals : ℕ := 0
  deriving DecidableEq

def emptyControlCounts : Counts := {}

/-- The count of one status. -/
def countStatus (results : List RuleResult) (status : ResultStatus) : ℕ :=
  results.countP fun result => result.status = status

def observationCounts (results : List RuleResult) : Counts where
  deals := 1
  failedDeals := (decide (0 < countStatus results .fail)).toNat
  violations := countStatus results .fail
  review := countStatus results .review
  unknown := countStatus results .unknown
  passed := countStatus results .pass
  reviewDeals := (decide (0 < countStatus results .review)).toNat
  unknownDeals := (decide (0 < countStatus results .unknown)).toNat
  checkedDeals := (decide (countStatus results .unknown = 0 ∧ countStatus results .review = 0 ∧
    results ≠ [])).toNat
  unresolvedDeals := (decide (0 < countStatus results .fail)).toNat

/-- Field-wise addition. -/
def addControlCounts (target value : Counts) : Counts where
  deals := target.deals + value.deals
  failedDeals := target.failedDeals + value.failedDeals
  violations := target.violations + value.violations
  review := target.review + value.review
  unknown := target.unknown + value.unknown
  passed := target.passed + value.passed
  reviewDeals := target.reviewDeals + value.reviewDeals
  unknownDeals := target.unknownDeals + value.unknownDeals
  checkedDeals := target.checkedDeals + value.checkedDeals
  unresolvedDeals := target.unresolvedDeals + value.unresolvedDeals

/-! ## The state of a case -/

inductive CaseStatus
  | opened
  | review
  | disputed
  | exempted
  | resolved
  | superseded
  deriving DecidableEq

/-- A closed episode. -/
def CaseStatus.Closed (status : CaseStatus) : Prop := status = .resolved ∨ status = .superseded

instance (status : CaseStatus) : Decidable status.Closed := by
  unfold CaseStatus.Closed
  infer_instance

/-- The fields of a stored case that the next state depends on. -/
structure CaseState where
  status : CaseStatus
  exemptionUntil : Option ℤ := none
  confirmedAt : Option ℤ := none

/-- A result that needs a case: a violation, or records to be read by a person. -/
def RuleResult.detects (result : RuleResult) : Bool := result.status = .fail || result.status = .review

def nextControlCaseState (previous : Option CaseState) (result : RuleResult) (observedAt : ℤ) :
    Option CaseStatus :=
  if result.status = .pass || (result.status = .na && Details.isTrue result.details "resolvesPrior") then
    if previous.isSome then some .resolved else none
  else if !result.detects then none
  else match previous with
  | none => if result.status = .fail then some .opened else some .review
  | some previous =>
    if previous.status = .exempted && previous.exemptionUntil.any (observedAt < ·) then some .exempted
    else if previous.status = .disputed then some .disputed
    else if previous.confirmedAt.isSome then some .opened
    else if result.status = .fail then some .opened else some .review

/-- A state that is not `RESOLVED` is a state of a live case. -/
theorem nextControlCaseState_live {previous : Option CaseState} {result : RuleResult} {observedAt : ℤ}
    {status : CaseStatus} (h : nextControlCaseState previous result observedAt = some status)
    (hne : status ≠ .resolved) : ¬ status.Closed := by
  unfold nextControlCaseState at h
  have key : status = .opened ∨ status = .review ∨ status = .disputed ∨ status = .exempted := by
    repeat' (first | split at h | simp_all)
  rcases key with rfl | rfl | rfl | rfl <;> decide

/-- Only a known case is resolved. -/
theorem nextControlCaseState_none_ne_resolved {result : RuleResult} {observedAt : ℤ} :
    nextControlCaseState none result observedAt ≠ some .resolved := by
  unfold nextControlCaseState
  split_ifs <;> simp_all

/-- A violation of a known case keeps the exemption exactly while the deadline lies ahead. -/
theorem nextControlCaseState_exempted_iff {previous : CaseState} {result : RuleResult}
    {observedAt : ℤ} (h : result.detects = true) :
    nextControlCaseState (some previous) result observedAt = some .exempted ↔
      previous.status = .exempted ∧ ∃ v, previous.exemptionUntil = some v ∧ observedAt < v := by
  have hpass : (result.status = .pass || (result.status = .na &&
      Details.isTrue result.details "resolvesPrior")) = false := by
    rcases (by simpa [RuleResult.detects] using h : result.status = .fail ∨ result.status = .review)
      with hs | hs <;> simp [hs]
  have hdetects : (!result.detects) = false := by simp [h]
  unfold nextControlCaseState
  rw [hpass, hdetects]
  simp only [Bool.false_eq_true, if_false, Bool.and_eq_true, decide_eq_true_eq, Option.any_eq_true]
  constructor
  · intro hs
    by_contra hne
    rw [if_neg hne] at hs
    split_ifs at hs <;> cases hs
  · intro hs
    rw [if_pos hs]

/-! ## Manual review -/

/-- Lower case of the Russian letters. -/
def lowerRu (c : Char) : Char :=
  if 0x410 ≤ c.toNat ∧ c.toNat ≤ 0x42F then Char.ofNat (c.toNat + 0x20) else c

/-- `/итог рабочего дня/i.test(message)`. -/
def mentionsDayEnd (message : String) : Bool :=
  (message.toList.map lowerRu).tails.any fun rest => "итог рабочего дня".toList.isPrefixOf rest

/-- Earlier saved snapshots predate the structured day-end flag. -/
def controlManualReviewAllowed (status : ResultStatus) (ruleCode message : String)
    (details : Details) : Bool :=
  if status ≠ .fail ∧ status ≠ .review ∧ status ≠ .unknown then false
  else if status ≠ .unknown then true
  else if Details.isTrue (some details) "awaitingDayEnd" then false
  else !(["intake_stage", "task_deadline", "proposal_note"].contains ruleCode &&
    mentionsDayEnd message)

end AmoAnalytics.CrmControl
