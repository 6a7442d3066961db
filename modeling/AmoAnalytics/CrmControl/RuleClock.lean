import AmoAnalytics.CrmControl.Logic
import AmoAnalytics.CrmControl.RuleSources

/-!
# Violations and the passage of time

The same facts are evaluated at `t₁` and, later, at `t₂`. Most rules compare instants, and a
violation they find stays one. Three rules compare local wall-clock times: the intake stage and the
task of the day with 19:00 of the local date, the age of the deal with a calendar month. Where the
local time runs backwards between the two evaluations, these three may take their verdict back;
`ClockHolds` says exactly when they do not.
-/

namespace AmoAnalytics.CrmControl

open CivilDate

/-! ## Results that settle a case -/

/-- The result closes a known case. -/
def RuleResult.Settles (result : RuleResult) : Prop :=
  result.status = .pass ∨
    (result.status = .na ∧ Details.isTrue result.details "resolvesPrior" = true)

theorem nextControlCaseState_resolved_iff {previous : CaseState} {result : RuleResult}
    {observedAt : ℤ} :
    nextControlCaseState (some previous) result observedAt = some .resolved ↔ result.Settles := by
  have hcond : (result.status = .pass || (result.status = .na &&
      Details.isTrue result.details "resolvesPrior")) = true ↔ result.Settles := by
    simp [RuleResult.Settles]
  rw [← hcond]
  unfold nextControlCaseState
  constructor
  · intro h
    by_contra hopen
    rw [if_neg hopen] at h
    repeat' (first | cases h | split at h)
  · intro h
    simp [h]

theorem not_settles_of_fail {result : RuleResult} (h : result.status = .fail) : ¬ result.Settles := by
  rintro (hpass | ⟨hna, -⟩)
  · exact absurd (h.symm.trans hpass) (by decide)
  · exact absurd (h.symm.trans hna) (by decide)

/-- The later result does not close the case of a violation that the earlier one found. -/
def StaysOpen (earlier later : RuleResult) : Prop :=
  earlier.key = later.key ∧ (earlier.status = .fail → ¬ later.Settles)

theorem StaysOpen.refl (result : RuleResult) : StaysOpen result result :=
  ⟨rfl, not_settles_of_fail⟩

/-! ## The same facts at a later time -/

/-- The same input, observed at another time. -/
def RuleInput.at (input : RuleInput) (time : ℤ) : RuleInput := { input with observedAt := some time }

def Context.at (c : Context) (time : ℤ) : Context :=
  { c with input := c.input.at time, observedAt := time }

namespace Context

variable (c : Context) (time : ℤ)

/-- 19:00 of the local date. -/
def cutoff : ℤ := c.localDayStart + 19 * hour

theorem beforeDayEnd_eq_false : c.beforeDayEnd = false ↔ c.cutoff ≤ c.observedCivil := by
  simp [beforeDayEnd, cutoff]

@[simp] theorem at_createdAt : (c.at time).createdAt = c.createdAt := rfl

@[simp] theorem at_observedAt : (c.at time).observedAt = time := rfl

@[simp] theorem at_formatter : (c.at time).formatter = c.formatter := rfl

@[simp] theorem at_sales : (c.at time).sales = c.sales := rfl

@[simp] theorem at_base : (c.at time).base = c.base := rfl

@[simp] theorem at_activeTasks : (c.at time).activeTasks = c.activeTasks := rfl

@[simp] theorem at_scope : (c.at time).input.scope = c.input.scope := rfl

@[simp] theorem at_deal : (c.at time).input.deal = c.input.deal := rfl

@[simp] theorem at_config : (c.at time).input.config = c.input.config := rfl

@[simp] theorem at_stageRule : (c.at time).stageRule = c.stageRule := rfl

/-- A stage entry that was known earlier is known later. -/
theorem at_stageEnteredAt {c : Context} {time entered : ℤ} (hle : c.observedAt ≤ time)
    (h : c.stageEnteredAt = some entered) : (c.at time).stageEnteredAt = some entered := by
  unfold stageEnteredAt at h ⊢
  show (if c.input.sourceCompleteness.stageHistory then
    c.input.stageEnteredAt.filter fun entry => entry ≤ time else none) = some entered
  by_cases hflag : c.input.sourceCompleteness.stageHistory = true
  · rw [if_pos hflag, Option.filter_eq_some_iff] at h ⊢
    exact ⟨h.1, decide_eq_true ((of_decide_eq_true h.2).trans hle)⟩
  · rw [if_neg hflag] at h
    cases h

theorem at_limit {c : Context} {time entered : ℤ} (hle : c.observedAt ≤ time)
    (h : c.stageEnteredAt = some entered) : (c.at time).limit = c.limit := by
  unfold limit
  rw [at_stageEnteredAt hle h, h]
  rfl

end Context

theorem stageDeadline_entry {rule : Option StageRule} {entry : Option ℤ} {formatter : Formatter}
    {deadline : ℤ} (h : (stageDeadline rule entry formatter).deadline = some deadline) :
    ∃ entered, entry = some entered := by
  rcases entry with _ | entered
  · exfalso
    unfold stageDeadline at h
    rcases rule with _ | rule
    · cases h
    · simp only [] at h
      split_ifs at h
  · exact ⟨entered, rfl⟩

/-! ## Rules that compare instants -/

theorem Context.add_not_settles (c : Context) (code : RuleCode) {status : ResultStatus}
    (message : String) (extra : ResultExtra) (hpass : status ≠ .pass) (hna : status ≠ .na) :
    ¬ (c.add code status message extra).Settles := by
  rintro (h | ⟨h, -⟩)
  · exact hpass h
  · exact hna h

theorem incompleteTasks_stays (c : Context) (time : ℤ) :
    List.Forall₂ StaysOpen (incompleteTasks c) (incompleteTasks (c.at time)) := by
  unfold incompleteTasks
  rw [List.forall₂_map_left_iff, List.forall₂_map_right_iff]
  refine List.forall₂_same.2 fun code _ => ⟨?_, ?_⟩
  · split_ifs <;> rfl
  · intro hfail
    exfalso
    split_ifs at hfail <;> cases hfail

/-- A limit with a deadline is over. -/
def Exceeded (limit : StageDeadline) (deadline observedAt : ℤ) : Prop :=
  if limit.mode = .endOfDay then deadline ≤ observedAt else deadline < observedAt

theorem Exceeded.mono {limit : StageDeadline} {deadline t u : ℤ} (h : Exceeded limit deadline t)
    (hle : t ≤ u) : Exceeded limit deadline u := by
  unfold Exceeded at h ⊢
  split_ifs at h ⊢
  · exact le_trans h hle
  · exact lt_of_lt_of_le h hle

section StageDuration

variable {c : Context}

/-- The price rule checks the duration of this stage. -/
abbrev Context.delegated (c : Context) : Bool :=
  !c.sales && c.input.scope.priceRequestedStageId.chosen = some c.input.deal.stageId

theorem stageDuration_fail (h : (stageDuration c).status = .fail) :
    ¬ c.delegated = true ∧ ¬ c.unlimited = true ∧ ∃ deadline entered, c.limit.deadline = some deadline ∧
      c.stageEnteredAt = some entered ∧ Exceeded c.limit deadline c.observedAt := by
  unfold stageDuration at h
  by_cases hdelegated : c.delegated = true
  · rw [if_pos hdelegated] at h
    cases h
  by_cases hunlimited : c.unlimited = true
  · rw [if_neg hdelegated, if_pos hunlimited] at h
    cases h
  rw [if_neg hdelegated, if_neg hunlimited] at h
  refine ⟨hdelegated, hunlimited, ?_⟩
  rcases hdeadline : c.limit.deadline with _ | deadline
  · rw [hdeadline] at h
    cases h
  rcases hentered : c.stageEnteredAt with _ | entered
  · rw [hdeadline, hentered] at h
    cases h
  refine ⟨deadline, entered, rfl, rfl, ?_⟩
  by_contra hexceeded
  rw [Exceeded] at hexceeded
  rw [hdeadline, hentered] at h
  simp only [hexceeded, decide_false, Bool.not_false, if_true] at h
  cases h

theorem stageDuration_open (hdelegated : ¬ c.delegated = true) (hunlimited : ¬ c.unlimited = true)
    {deadline entered : ℤ} (hdeadline : c.limit.deadline = some deadline)
    (hentered : c.stageEnteredAt = some entered) (hexceeded : Exceeded c.limit deadline c.observedAt) :
    ¬ (stageDuration c).Settles := by
  rw [Exceeded] at hexceeded
  unfold stageDuration
  rw [if_neg hdelegated, if_neg hunlimited, hdeadline, hentered]
  simp only [hexceeded, decide_true, Bool.not_true, Bool.false_eq_true, if_false]
  split_ifs <;> exact c.add_not_settles _ _ _ (by decide) (by decide)

theorem stageDuration_stays {time : ℤ} (hle : c.observedAt ≤ time) :
    StaysOpen (stageDuration c) (stageDuration (c.at time)) := by
  refine ⟨(stageDuration_key c).trans (stageDuration_key _).symm, fun hfail => ?_⟩
  obtain ⟨hdelegated, hunlimited, deadline, entered, hdeadline, hentered, hexceeded⟩ :=
    stageDuration_fail hfail
  have hlimit := Context.at_limit hle hentered
  refine stageDuration_open hdelegated ?_ (hlimit ▸ hdeadline) (Context.at_stageEnteredAt hle hentered)
    (hlimit ▸ hexceeded.mono hle)
  unfold Context.unlimited
  rw [hlimit]
  exact hunlimited

end StageDuration

section ProposalNote

variable {c : Context}

theorem StageRef.not_absent {stage : StageRef} {id : String} (h : stage.chosen = some id) :
    stage ≠ .absent := by
  rintro rfl
  cases h

theorem proposalNote_fail (h : (proposalNote c).status = .fail) :
    c.input.scope.preparedProposalStageId.chosen = some c.input.deal.stageId := by
  unfold proposalNote at h
  by_cases habsent : c.input.scope.preparedProposalStageId = .absent
  · rw [if_pos habsent] at h
    cases h
  rw [if_neg habsent] at h
  rcases hchosen : c.input.scope.preparedProposalStageId.chosen with _ | stageId
  · rw [hchosen] at h
    cases h
  by_cases hstage : c.input.deal.stageId = stageId
  · rw [hstage]
  · simp only [hchosen, ne_eq, hstage, not_false_eq_true, if_true] at h
    cases h

theorem proposalNote_open
    (h : c.input.scope.preparedProposalStageId.chosen = some c.input.deal.stageId) :
    ¬ (proposalNote c).Settles := by
  unfold proposalNote
  rw [if_neg (StageRef.not_absent h), h]
  simp only [ne_eq, not_true, if_false]
  split_ifs <;> exact c.add_not_settles _ _ _ (by decide) (by decide)

theorem proposalNote_stays (c : Context) (time : ℤ) :
    StaysOpen (proposalNote c) (proposalNote (c.at time)) :=
  ⟨(proposalNote_key c).trans (proposalNote_key _).symm, fun hfail =>
    proposalNote_open (c := c.at time) (proposalNote_fail (c := c) hfail)⟩

end ProposalNote

section PriceRequested

variable {c : Context}

/-- The stage asks for a price and has a limit that is over. -/
structure PriceOverdue (c : Context) (deadline entered : ℤ) : Prop where
  csm : ¬ c.sales = true
  stage : c.input.scope.priceRequestedStageId.chosen = some c.input.deal.stageId
  limited : ¬ ((priceLimit c).mode = .unlimited ∧ (priceLimit c).reason = none)
  dueAt : (priceLimit c).deadline = some deadline
  enteredAt : c.stageEnteredAt = some entered
  exceeded : Exceeded (priceLimit c) deadline c.observedAt

theorem priceRequestedDuration_fail (h : (priceRequestedDuration c).status = .fail) :
    ∃ deadline entered, PriceOverdue c deadline entered := by
  unfold priceRequestedDuration at h
  by_cases hsales : c.sales = true
  · rw [if_pos hsales] at h
    cases h
  by_cases habsent : c.input.scope.priceRequestedStageId = .absent
  · rw [if_neg hsales, if_pos habsent] at h
    cases h
  rw [if_neg hsales, if_neg habsent] at h
  rcases hchosen : c.input.scope.priceRequestedStageId.chosen with _ | stageId
  · rw [hchosen] at h
    cases h
  by_cases hstage : c.input.deal.stageId = stageId
  swap
  · simp only [hchosen, ne_eq, hstage, not_false_eq_true, if_true] at h
    cases h
  by_cases hunlimited : (priceLimit c).mode = .unlimited ∧ (priceLimit c).reason = none
  · simp only [hchosen, hstage, ne_eq, not_true, if_false, hunlimited, and_self, if_true] at h
    cases h
  simp only [hchosen, hstage, ne_eq, not_true, if_false, hunlimited] at h
  rcases hdeadline : (priceLimit c).deadline with _ | deadline
  · rw [hdeadline] at h
    cases h
  rcases hentered : c.stageEnteredAt with _ | entered
  · rw [hdeadline, hentered] at h
    cases h
  refine ⟨deadline, entered, hsales, by rw [hchosen, hstage], hunlimited, hdeadline, hentered, ?_⟩
  rw [hdeadline, hentered] at h
  unfold Exceeded
  split_ifs with hmode
  · by_contra hbefore
    simp only [hmode, if_true] at h
    rw [if_pos (not_le.1 hbefore)] at h
    cases h
  · by_contra hbefore
    simp only [hmode, if_false] at h
    rw [if_pos (not_lt.1 hbefore)] at h
    cases h

theorem priceOverdue_open (c : Context) (entered : ℤ) : ¬ (priceOverdue c entered).Settles := by
  unfold priceOverdue
  simp only []
  split_ifs <;> exact c.add_not_settles _ _ _ (by decide) (by decide)

theorem priceRequestedDuration_open {deadline entered : ℤ} (h : PriceOverdue c deadline entered) :
    ¬ (priceRequestedDuration c).Settles := by
  have hexceeded := h.exceeded
  unfold Exceeded at hexceeded
  unfold priceRequestedDuration
  rw [if_neg h.csm, if_neg (StageRef.not_absent h.stage), h.stage]
  simp only [ne_eq, not_true, if_false, h.limited]
  rw [h.dueAt, h.enteredAt]
  by_cases hmode : (priceLimit c).mode = .endOfDay
  · rw [if_pos hmode] at hexceeded
    simp only [hmode, if_true]
    rw [if_neg (not_lt.2 hexceeded)]
    exact c.add_not_settles _ _ _ (by decide) (by decide)
  · rw [if_neg hmode] at hexceeded
    simp only [hmode, if_false]
    rw [if_neg (not_le.2 hexceeded)]
    exact priceOverdue_open c entered

theorem priceRequestedDuration_stays {time : ℤ} (hle : c.observedAt ≤ time) :
    StaysOpen (priceRequestedDuration c) (priceRequestedDuration (c.at time)) := by
  refine ⟨(priceRequestedDuration_key c).trans (priceRequestedDuration_key _).symm, fun hfail => ?_⟩
  obtain ⟨deadline, entered, h⟩ := priceRequestedDuration_fail hfail
  have hentered := Context.at_stageEnteredAt hle h.enteredAt
  have hlimit : priceLimit (c.at time) = priceLimit c := by
    unfold priceLimit
    rw [Context.at_limit hle h.enteredAt, hentered, h.enteredAt]
    rfl
  exact priceRequestedDuration_open ⟨h.csm, h.stage, hlimit ▸ h.limited, hlimit ▸ h.dueAt,
    hentered, hlimit ▸ h.exceeded.mono hle⟩

end PriceRequested

section TaskStageDeadline

variable {c : Context} {task : Task}

theorem taskStageDeadline_fail (h : (taskStageDeadline c task).status = .fail) :
    ¬ c.unlimited = true ∧ ∃ deadline dueAt, c.limit.deadline = some deadline ∧
      task.dueAt = some dueAt ∧ deadline < dueAt := by
  unfold taskStageDeadline at h
  by_cases hunlimited : c.unlimited = true
  · simp only [hunlimited, if_true] at h
    cases h
  simp only [hunlimited, Bool.false_eq_true, if_false] at h
  refine ⟨hunlimited, ?_⟩
  rcases hdeadline : c.limit.deadline with _ | deadline
  · rw [hdeadline] at h
    cases h
  rcases hdue : task.dueAt with _ | dueAt
  · rw [hdeadline, hdue] at h
    cases h
  refine ⟨deadline, dueAt, rfl, rfl, ?_⟩
  by_contra hbefore
  rw [hdeadline, hdue] at h
  simp only [not_lt.1 hbefore, if_true] at h
  cases h

theorem taskStageDeadline_open (hunlimited : ¬ c.unlimited = true) {deadline dueAt : ℤ}
    (hdeadline : c.limit.deadline = some deadline) (hdue : task.dueAt = some dueAt)
    (hlate : deadline < dueAt) : ¬ (taskStageDeadline c task).Settles := by
  unfold taskStageDeadline
  simp only [hunlimited, Bool.false_eq_true, if_false]
  rw [hdeadline, hdue]
  simp only [not_le.2 hlate, if_false]
  split_ifs <;> exact c.add_not_settles _ _ _ (by decide) (by decide)

theorem taskStageDeadline_stays {time : ℤ} (hle : c.observedAt ≤ time) :
    StaysOpen (taskStageDeadline c task) (taskStageDeadline (c.at time) task) := by
  refine ⟨(taskStageDeadline_key c task).trans (taskStageDeadline_key _ task).symm, fun hfail => ?_⟩
  obtain ⟨hunlimited, deadline, dueAt, hdeadline, hdue, hlate⟩ := taskStageDeadline_fail hfail
  obtain ⟨entered, hentered⟩ := stageDeadline_entry hdeadline
  have hlimit := Context.at_limit hle hentered
  refine taskStageDeadline_open ?_ (hlimit ▸ hdeadline) hdue hlate
  unfold Context.unlimited
  rw [hlimit]
  exact hunlimited

end TaskStageDeadline

/-! ## Rules that compare local times -/

/-- The creation time, when it is known and not after the observation. -/
def Context.knownCreation (c : Context) : Option ℤ :=
  c.createdAt.filter fun createdAt => createdAt ≤ c.observedAt

theorem Context.knownCreation_eq_some {c : Context} {createdAt : ℤ} :
    c.knownCreation = some createdAt ↔ c.createdAt = some createdAt ∧ createdAt ≤ c.observedAt := by
  rw [knownCreation, Option.filter_eq_some_iff, decide_eq_true_eq]

theorem Context.at_knownCreation {c : Context} {time createdAt : ℤ} (hle : c.observedAt ≤ time)
    (h : c.knownCreation = some createdAt) : (c.at time).knownCreation = some createdAt := by
  rw [knownCreation_eq_some] at h ⊢
  exact ⟨h.1, h.2.trans hle⟩

theorem settles_na {result : RuleResult} (hstatus : result.status = .na)
    (hdetails : Details.isTrue result.details "resolvesPrior" = true) : result.Settles :=
  Or.inr ⟨hstatus, hdetails⟩

theorem settles_iff_pass {result : RuleResult} (h : result.status ≠ .na) :
    result.Settles ↔ result.status = .pass :=
  ⟨fun hs => hs.elim id fun hna => absurd hna.1 h, Or.inl⟩

section Intake

variable {c : Context}

/-- The stage where a new deal waits. -/
def Context.intakeStageId (c : Context) : StageRef :=
  if c.sales then c.input.scope.assignedStageId else c.input.scope.newClientStageId

/-- What the intake rule says of a deal on the stage it checks. -/
theorem intakeStage_eq (h : c.intakeStageId.chosen = some c.input.deal.stageId) :
    ((intakeStage c).status = .fail ↔ c.beforeDayEnd = false ∧ (c.sales = true →
      ∃ createdAt, c.knownCreation = some createdAt ∧ civilTime createdAt c.formatter < c.cutoff)) ∧
    ((intakeStage c).Settles ↔ c.beforeDayEnd = false ∧ c.sales = true ∧
      ∃ createdAt, c.knownCreation = some createdAt ∧ c.cutoff ≤ civilTime createdAt c.formatter) := by
  have hopen : ∀ {status : ResultStatus} (message : String) (extra : ResultExtra),
      status ≠ .pass → status ≠ .na → ¬ (c.add .intakeStage status message extra).Settles :=
    c.add_not_settles .intakeStage
  unfold Context.intakeStageId at h
  unfold intakeStage
  simp only [StageRef.not_absent h, if_false, h, ne_eq, not_true]
  cases hend : c.beforeDayEnd with
  | true => exact ⟨by simp, by simpa using hopen _ _ (by decide) (by decide)⟩
  | false =>
    cases hsales : c.sales with
    | false => exact ⟨by simp, by simpa using hopen _ _ (by decide) (by decide)⟩
    | true =>
      simp only [Bool.false_eq_true, if_false, Bool.not_true, true_and, forall_const]
      rw [← Context.knownCreation]
      rcases c.knownCreation with _ | createdAt
      · exact ⟨by simp, by simpa using hopen _ _ (by decide) (by decide)⟩
      · rw [← Context.cutoff]
        by_cases hbefore : civilTime createdAt c.formatter < c.cutoff
        · refine ⟨by simp [hbefore], ?_⟩
          simp only [hbefore, if_true]
          refine iff_of_false (hopen _ _ (by decide) (by decide)) ?_
          rintro ⟨createdAt', hcreated, hafter⟩
          obtain rfl := Option.some.inj hcreated
          exact absurd hbefore (not_lt.2 hafter)
        · refine ⟨by simp [hbefore], ?_⟩
          simp only [hbefore, if_false]
          refine iff_of_true (settles_na rfl ?_) ⟨createdAt, rfl, not_lt.1 hbefore⟩
          simp [Details.isTrue, JsMap.get?, resolvesPrior, Context.add, ruleResult]

theorem intakeStage_fail_stage (h : (intakeStage c).status = .fail) :
    c.intakeStageId.chosen = some c.input.deal.stageId := by
  unfold intakeStage at h
  unfold Context.intakeStageId
  by_cases habsent :
      (if c.sales then c.input.scope.assignedStageId else c.input.scope.newClientStageId) = .absent
  · simp only [habsent, if_true] at h
    cases h
  simp only [habsent, if_false] at h
  rcases hchosen : (if c.sales then c.input.scope.assignedStageId
    else c.input.scope.newClientStageId).chosen with _ | stageId
  · rw [hchosen] at h
    cases h
  by_cases hstage : c.input.deal.stageId = stageId
  · rw [hstage]
  · simp only [hchosen, ne_eq, hstage, not_false_eq_true, if_true] at h
    cases h

/-- A deal created before 19:00 of the first local date counts as created before 19:00 of the second,
where both evaluations come after the end of the day. -/
def IntakeHolds (c : Context) (time : ℤ) : Prop :=
  c.sales = true → c.intakeStageId.chosen = some c.input.deal.stageId →
    ∀ createdAt, c.knownCreation = some createdAt → civilTime createdAt c.formatter < c.cutoff →
      c.cutoff ≤ c.observedCivil → (c.at time).cutoff ≤ (c.at time).observedCivil →
        civilTime createdAt c.formatter < (c.at time).cutoff

theorem intakeStage_stays_iff {time : ℤ} (hle : c.observedAt ≤ time) :
    StaysOpen (intakeStage c) (intakeStage (c.at time)) ↔ IntakeHolds c time := by
  have hlater : ∀ (h : c.intakeStageId.chosen = some c.input.deal.stageId),
      ((intakeStage (c.at time)).Settles ↔ _) := fun h => (intakeStage_eq (c := c.at time) h).2
  constructor
  · intro hstays hsales hstage createdAt hcreated hbefore hend hend'
    by_contra hafter
    refine hstays.2 ((intakeStage_eq hstage).1.2 ⟨c.beforeDayEnd_eq_false.2 hend, fun _ =>
      ⟨createdAt, hcreated, hbefore⟩⟩) ((hlater hstage).2 ?_)
    exact ⟨(c.at time).beforeDayEnd_eq_false.2 hend', hsales, createdAt,
      Context.at_knownCreation hle hcreated, not_lt.1 hafter⟩
  · intro hholds
    refine ⟨(intakeStage_key c).trans (intakeStage_key _).symm, fun hfail hsettles => ?_⟩
    have hstage := intakeStage_fail_stage hfail
    obtain ⟨hend, hcreation⟩ := (intakeStage_eq hstage).1.1 hfail
    obtain ⟨hend', hsales, createdAt', hcreated', hafter⟩ := (hlater hstage).1 hsettles
    obtain ⟨createdAt, hcreated, hbefore⟩ := hcreation hsales
    obtain rfl : createdAt = createdAt' :=
      Option.some.inj ((Context.at_knownCreation hle hcreated).symm.trans hcreated')
    exact absurd (hholds hsales hstage createdAt hcreated hbefore (c.beforeDayEnd_eq_false.1 hend)
      ((c.at time).beforeDayEnd_eq_false.1 hend')) (not_lt.2 hafter)

end Intake

section TaskDeadline

variable {c : Context} {task : Task}

/-- The local date on which a task is due. -/
def Context.dueDay (c : Context) (dueAt : ℤ) : ℤ := civilTime dueAt c.formatter / day * day

theorem taskDeadline_status {dueAt : ℤ} (h : task.dueAt = some dueAt) :
    (taskDeadline c task).status =
      if c.dueDay dueAt = c.localDayStart ∧ ¬ dueAt < c.observedAt ∧ c.beforeDayEnd = true then
        .unknown
      else if c.dueDay dueAt = c.localDayStart ∨ dueAt < c.observedAt then .fail else .pass := by
  unfold taskDeadline Context.dueDay
  simp only [h]
  by_cases htoday : civilTime dueAt c.formatter / day * day = c.localDayStart <;>
    by_cases hover : dueAt < c.observedAt <;> cases hend : c.beforeDayEnd <;>
      simp [htoday, hover]

/-- What the deadline rule says of a task with a due time. -/
theorem taskDeadline_eq {dueAt : ℤ} (h : task.dueAt = some dueAt) :
    ((taskDeadline c task).status = .fail ↔
      dueAt < c.observedAt ∨ c.dueDay dueAt = c.localDayStart ∧ c.beforeDayEnd = false) ∧
    ((taskDeadline c task).Settles ↔ c.observedAt ≤ dueAt ∧ c.dueDay dueAt ≠ c.localDayStart) := by
  have hstatus := taskDeadline_status (c := c) h
  have hna : (taskDeadline c task).status ≠ .na := by
    rw [hstatus]
    split_ifs <;> decide
  rw [settles_iff_pass hna, hstatus, ← not_lt]
  by_cases htoday : c.dueDay dueAt = c.localDayStart <;> by_cases hover : dueAt < c.observedAt <;>
    cases hend : c.beforeDayEnd <;> simp [htoday, hover]

theorem taskDeadline_unknown (h : task.dueAt = none) : (taskDeadline c task).status = .unknown := by
  unfold taskDeadline
  rw [h]
  rfl

/-- A task due on the local date of the first evaluation, after its end, and not yet overdue at the
second, is due on the local date of the second too. -/
def TaskHolds (c : Context) (time : ℤ) (task : Task) : Prop :=
  ∀ dueAt, task.dueAt = some dueAt → time ≤ dueAt → c.dueDay dueAt = c.localDayStart →
    c.cutoff ≤ c.observedCivil → c.dueDay dueAt = (c.at time).localDayStart

theorem taskDeadline_stays_iff {time : ℤ} (hle : c.observedAt ≤ time) :
    StaysOpen (taskDeadline c task) (taskDeadline (c.at time) task) ↔ TaskHolds c time task := by
  constructor
  · intro hstays dueAt hdue hlate htoday hend
    by_contra hother
    exact hstays.2 ((taskDeadline_eq hdue).1.2 (Or.inr ⟨htoday, c.beforeDayEnd_eq_false.2 hend⟩))
      ((taskDeadline_eq (c := c.at time) hdue).2.2 ⟨hlate, hother⟩)
  · intro hholds
    refine ⟨(taskDeadline_key c task).trans (taskDeadline_key _ task).symm, fun hfail hsettles => ?_⟩
    rcases hdue : task.dueAt with _ | dueAt
    · rw [taskDeadline_unknown hdue] at hfail
      cases hfail
    obtain ⟨hlate, hother⟩ := (taskDeadline_eq (c := c.at time) hdue).2.1 hsettles
    rcases (taskDeadline_eq hdue).1.1 hfail with hover | ⟨htoday, hend⟩
    · exact absurd (hover.trans_le hle) (not_lt.2 hlate)
    · exact hother (hholds dueAt hdue hlate htoday (c.beforeDayEnd_eq_false.1 hend))

end TaskDeadline

section DealAge

variable {c : Context}

/-- The age of the deal is limited. -/
def AgeChecked (c : Context) : Prop :=
  c.input.scope.checkDealAge ≠ some false ∧ ¬ (c.base && c.input.config.excludeBaseFromAge) = true

def TooOld (c : Context) (createdAt : ℤ) : Prop :=
  match c.input.config.maxDealAge with
  | .thirtyDays => 30 * day < c.observedAt - createdAt
  | .calendarMonth => nextCalendarMonth (civilTime createdAt c.formatter) < c.observedCivil

theorem dealAge_checked (h : (dealAge c).status = .fail) : AgeChecked c := by
  unfold dealAge at h
  by_cases hoff : c.input.scope.checkDealAge = some false
  · rw [if_pos hoff] at h
    cases h
  by_cases hbase : (c.base && c.input.config.excludeBaseFromAge) = true
  · rw [if_neg hoff, if_pos hbase] at h
    cases h
  exact ⟨hoff, hbase⟩

theorem dealAge_status (h : AgeChecked c) {createdAt : ℤ} (hcreated : c.knownCreation = some createdAt) :
    (dealAge c).status = .fail ∧ TooOld c createdAt ∨
      (dealAge c).status = .pass ∧ ¬ TooOld c createdAt := by
  unfold dealAge TooOld
  rw [if_neg h.1, if_neg h.2, ← Context.knownCreation, hcreated]
  cases c.input.config.maxDealAge with
  | thirtyDays =>
    by_cases hold : 30 * day < c.observedAt - createdAt <;> simp [hold]
  | calendarMonth =>
    by_cases hold : nextCalendarMonth (civilTime createdAt c.formatter) < c.observedCivil <;>
      simp [hold]

theorem dealAge_unknown (h : AgeChecked c) (hcreated : c.knownCreation = none) :
    (dealAge c).status = .unknown := by
  unfold dealAge
  rw [if_neg h.1, if_neg h.2, ← Context.knownCreation, hcreated]
  rfl

/-- What the age rule says where the age is limited. -/
theorem dealAge_eq (h : AgeChecked c) :
    ((dealAge c).status = .fail ↔
      ∃ createdAt, c.knownCreation = some createdAt ∧ TooOld c createdAt) ∧
    ((dealAge c).Settles ↔
      ∃ createdAt, c.knownCreation = some createdAt ∧ ¬ TooOld c createdAt) := by
  rcases hcreated : c.knownCreation with _ | createdAt
  · have hstatus := dealAge_unknown h hcreated
    rw [settles_iff_pass (by rw [hstatus]; decide), hstatus]
    simp
  · rcases dealAge_status h hcreated with ⟨hstatus, hold⟩ | ⟨hstatus, hyoung⟩
    · rw [settles_iff_pass (by rw [hstatus]; decide), hstatus]
      simp [hold]
    · rw [settles_iff_pass (by rw [hstatus]; decide), hstatus]
      simp [hyoung]

/-- The age of the deal, counted in local calendar months, does not fall below the limit again. -/
def AgeHolds (c : Context) (time : ℤ) : Prop :=
  AgeChecked c → c.input.config.maxDealAge = .calendarMonth →
    ∀ createdAt, c.knownCreation = some createdAt →
      nextCalendarMonth (civilTime createdAt c.formatter) < c.observedCivil →
        nextCalendarMonth (civilTime createdAt c.formatter) < (c.at time).observedCivil

theorem dealAge_stays_iff {time : ℤ} (hle : c.observedAt ≤ time) :
    StaysOpen (dealAge c) (dealAge (c.at time)) ↔ AgeHolds c time := by
  have hlater : ∀ h : AgeChecked c, ((dealAge (c.at time)).Settles ↔ _) :=
    fun h => (dealAge_eq (c := c.at time) h).2
  constructor
  · intro hstays hchecked hmonth createdAt hcreated hold
    by_contra hyoung
    refine hstays.2 ((dealAge_eq hchecked).1.2 ⟨createdAt, hcreated, ?_⟩) ((hlater hchecked).2
      ⟨createdAt, Context.at_knownCreation hle hcreated, ?_⟩)
    · simpa only [TooOld, hmonth] using hold
    · simpa only [TooOld, Context.at_config, Context.at_formatter, hmonth] using hyoung
  · intro hholds
    refine ⟨(dealAge_key c).trans (dealAge_key _).symm, fun hfail hsettles => ?_⟩
    have hchecked := dealAge_checked hfail
    obtain ⟨createdAt, hcreated, hold⟩ := (dealAge_eq hchecked).1.1 hfail
    obtain ⟨createdAt', hcreated', hyoung⟩ := (hlater hchecked).1 hsettles
    obtain rfl : createdAt = createdAt' :=
      Option.some.inj ((Context.at_knownCreation hle hcreated).symm.trans hcreated')
    refine hyoung ?_
    cases hpolicy : c.input.config.maxDealAge with
    | calendarMonth =>
      simp only [TooOld, Context.at_config, hpolicy] at hold ⊢
      exact hholds hchecked hpolicy createdAt hcreated hold
    | thirtyDays =>
      simp only [TooOld, Context.at_config, hpolicy, Context.at_observedAt] at hold ⊢
      omega

end DealAge

/-! ## The whole evaluation -/

/-- The local clock gives no reason to take a violation back. -/
structure ClockHolds (c : Context) (time : ℤ) : Prop where
  intake : IntakeHolds c time
  tasks : c.input.sourceCompleteness.tasks = true → ∀ task ∈ c.activeTasks, TaskHolds c time task
  age : AgeHolds c time

theorem contextResults_stay {c : Context} {time : ℤ} (hle : c.observedAt ≤ time)
    (h : ClockHolds c time) :
    List.Forall₂ StaysOpen (contextResults c) (contextResults (c.at time)) := by
  have htasks : List.Forall₂ StaysOpen (taskSection c) (taskSection (c.at time)) := by
    refine forall₂_taskSection rfl rfl (fun _ => incompleteTasks_stays c time)
      (StaysOpen.refl (taskCount c)) ?_ fun hflag task htask => ?_
    · exact forall₂_same StaysOpen.refl (noTasks c)
    · exact .cons ((taskDeadline_stays_iff hle).2 (h.tasks hflag task htask))
        (.cons (StaysOpen.refl (taskType c task)) (.cons (StaysOpen.refl (taskTextResult c task))
          (.cons (taskStageDeadline_stays hle) .nil)))
  refine List.rel_append (List.Forall₂.cons ((intakeStage_stays_iff hle).2 h.intake) htasks) ?_
  exact .cons (stageDuration_stays hle) (.cons (proposalNote_stays c time)
    (.cons ((dealAge_stays_iff hle).2 h.age) (.cons (StaysOpen.refl (offerBudget c))
      (.cons (StaysOpen.refl (proposalFile c)) (.cons (priceRequestedDuration_stays hle) .nil)))))

/-- A violation found at `t₁` is not taken back at `t₂`, and no case of it is closed. -/
def Persists (dateTimeFormat : String → Option Formatter) (input : RuleInput) (t₁ t₂ : ℤ) : Prop :=
  ∀ earlier ∈ evaluateCrmControlDeal dateTimeFormat (input.at t₁), earlier.status = .fail →
    ∀ later ∈ evaluateCrmControlDeal dateTimeFormat (input.at t₂), later.key = earlier.key →
      ¬ later.Settles ∧
        ∀ previous, nextControlCaseState (some previous) later t₂ ≠ some .resolved

section Evaluation

variable {dateTimeFormat : String → Option Formatter} {input : RuleInput} {t₁ t₂ : ℤ}

theorem evaluate_at {formatter : Formatter}
    (hformat : dateTimeFormat input.config.timeZone = some formatter)
    (hdeal : input.sourceCompleteness.deal = true)
    (hpipeline : input.scope.pipelineId = input.deal.pipelineId) (time : ℤ) :
    evaluateCrmControlDeal dateTimeFormat (input.at time) =
      contextResults { input := input.at time, observedAt := time, formatter } := by
  unfold evaluateCrmControlDeal
  simp only [RuleInput.at, hformat, hdeal, hpipeline, ne_eq, not_true, if_false, Bool.not_true,
    Bool.false_eq_true]
  rfl

theorem persists_of_forall₂ (h : List.Forall₂ StaysOpen
    (evaluateCrmControlDeal dateTimeFormat (input.at t₁))
    (evaluateCrmControlDeal dateTimeFormat (input.at t₂))) : Persists dateTimeFormat input t₁ t₂ := by
  intro earlier hearlier hfail later hlater hkey
  have hopen : ¬ later.Settles :=
    (rel_of_key (fun _ _ hR => hR.1) h (nodup_evaluate dateTimeFormat _) hearlier hlater hkey).2 hfail
  exact ⟨hopen, fun previous hresolved => hopen (nextControlCaseState_resolved_iff.1 hresolved)⟩

theorem taskDeadline_mem {c : Context} {task : Task} (hflag : c.input.sourceCompleteness.tasks = true)
    (htask : task ∈ c.activeTasks) : taskDeadline c task ∈ contextResults c := by
  have hsection : taskDeadline c task ∈ taskSection c := by
    unfold taskSection
    rw [hflag, Bool.not_true, if_neg Bool.false_ne_true, if_neg (List.ne_nil_of_mem htask)]
    exact List.mem_cons_of_mem _ (List.mem_flatMap.2 ⟨task, htask, List.mem_cons_self⟩)
  exact List.mem_append_left _ (List.mem_cons_of_mem _ hsection)

/-- **Violations and time.** Over the same facts a violation persists exactly where the local clock
gives no reason to take it back. -/
theorem violations_persist_iff (hle : t₁ ≤ t₂) :
    Persists dateTimeFormat input t₁ t₂ ↔
      ∀ formatter, dateTimeFormat input.config.timeZone = some formatter →
        input.sourceCompleteness.deal = true → input.scope.pipelineId = input.deal.pipelineId →
          ClockHolds { input := input.at t₁, observedAt := t₁, formatter } t₂ := by
  constructor
  · intro hpersists formatter hformat hdeal hpipeline
    set c : Context := { input := input.at t₁, observedAt := t₁, formatter } with hc
    have hstays : ∀ earlier ∈ contextResults c, ∀ later ∈ contextResults (c.at t₂),
        earlier.key = later.key → StaysOpen earlier later := by
      intro earlier hearlier later hlater hkey
      refine ⟨hkey, fun hfail => (hpersists earlier ?_ hfail later ?_ hkey.symm).1⟩
      · rw [evaluate_at hformat hdeal hpipeline]
        exact hearlier
      · rw [evaluate_at hformat hdeal hpipeline]
        exact hlater
    refine ⟨(intakeStage_stays_iff hle).1 (hstays _ ?_ _ ?_ ?_), fun hflag task htask =>
      (taskDeadline_stays_iff hle).1 (hstays _ (taskDeadline_mem hflag htask) _
        (taskDeadline_mem (c := c.at t₂) hflag htask) ?_),
      (dealAge_stays_iff hle).1 (hstays _ ?_ _ ?_ ?_)⟩
    · simp [contextResults]
    · simp [contextResults]
    · exact (intakeStage_key c).trans (intakeStage_key _).symm
    · exact (taskDeadline_key c task).trans (taskDeadline_key _ task).symm
    · simp [contextResults]
    · simp [contextResults]
    · exact (dealAge_key c).trans (dealAge_key _).symm
  · intro hclock
    refine persists_of_forall₂ (forall₂_evaluate StaysOpen.refl dateTimeFormat rfl rfl rfl rfl rfl ?_)
    intro observedAt observedAt' formatter hat hat' hformat hdeal hpipeline
    obtain rfl : t₁ = observedAt := Option.some.inj hat
    obtain rfl : t₂ = observedAt' := Option.some.inj hat'
    exact contextResults_stay (c := { input := input.at t₁, observedAt := t₁, formatter }) hle
      (hclock formatter hformat hdeal hpipeline)

/-- A local clock that never runs backwards gives no reason at all. -/
theorem ClockHolds.of_monotone {c : Context} {time : ℤ} (hle : c.observedAt ≤ time)
    (hclock : ∀ t u, c.observedAt ≤ t → t ≤ u → civilTime t c.formatter ≤ civilTime u c.formatter) :
    ClockHolds c time := by
  have hday : ∀ t u, c.observedAt ≤ t → t ≤ u → c.dueDay t ≤ c.dueDay u := fun t u ht hu =>
    Int.mul_le_mul_of_nonneg_right (Int.ediv_le_ediv (by decide) (hclock t u ht hu)) (by decide)
  have hstart : c.localDayStart ≤ (c.at time).localDayStart := hday _ _ le_rfl hle
  refine ⟨?_, ?_, ?_⟩
  · intro _ _ createdAt _ hbefore _ _
    exact hbefore.trans_le (Int.add_le_add_right hstart _)
  · intro _ task _ dueAt _ hlate htoday _
    exact le_antisymm (htoday.le.trans hstart) (hday _ _ hle hlate)
  · intro _ _ createdAt _ hold
    exact hold.trans_le (hclock _ _ le_rfl hle)

end Evaluation

section Sample

/-- Berlin around the end of the summer time of 2026, at 01:00 UTC on 25 October. -/
def berlin : Formatter := fun time =>
  utcFormatter (time + if time < 1_792_890_000_000 then 2 * hour else hour)

/-- A deal created on 25 September 2026 at 02:15 in Berlin. -/
def autumnInput : RuleInput where
  deal := ⟨"1", "1", "Сделка", some 1_790_295_300_000, "p", "s", none⟩
  tasks := []
  notes := []
  communications := []
  stageEnteredAt := none
  observedAt := none
  sourceCompleteness := ⟨true, true, true, true, true⟩
  config := { timeZone := "Europe/Berlin" }
  scope := { department := .sales, pipelineId := "p" }

/-- At 02:30 summer time the deal is too old, and 35 minutes later, at 02:05 winter time, it is not. -/
theorem violation_resolves_when_clock_goes_back :
    ¬ Persists (fun _ => some berlin) autumnInput 1_792_888_200_000 1_792_890_300_000 := by
  intro hpersists
  let c : Context :=
    { input := autumnInput.at 1_792_888_200_000, observedAt := 1_792_888_200_000, formatter := berlin }
  have heval : ∀ time, evaluateCrmControlDeal (fun _ => some berlin) (autumnInput.at time) =
      contextResults { input := autumnInput.at time, observedAt := time, formatter := berlin } :=
    evaluate_at rfl rfl rfl
  have hearlier : dealAge c ∈ contextResults c := by simp [contextResults]
  have hlater : dealAge (c.at 1_792_890_300_000) ∈ contextResults (c.at 1_792_890_300_000) := by
    simp [contextResults]
  have hopen := hpersists (dealAge c) (heval _ ▸ hearlier) (by decide +kernel)
    (dealAge (c.at 1_792_890_300_000)) (heval _ ▸ hlater)
    ((dealAge_key _).trans (dealAge_key c).symm)
  exact hopen.1 (Or.inl (by decide +kernel))

/-- A deal too old in September is still too old in the following spring. -/
theorem violations_persist_iff_sample :
    Persists (fun _ => some utcFormatter) (partialInput true) 10_000_000_000 100_000_000_000 := by
  refine (violations_persist_iff (by decide)).2 ?_
  rintro formatter ⟨rfl⟩ _ _
  refine ⟨fun hsales => absurd hsales (by decide), fun htasks => absurd htasks (by decide), ?_⟩
  rintro _ _ createdAt hcreated _
  obtain rfl : 0 = createdAt := Option.some.inj (Context.knownCreation_eq_some.1 hcreated).1
  decide +kernel

end Sample

end AmoAnalytics.CrmControl
