import AmoAnalytics.CrmControl.RuleKeys

/-!
# What incomplete sources may decide

Two evaluations whose inputs agree on the deal, the settings and the completeness flags run through
the same rules for the same subjects, so their results stand side by side (`forall₂_evaluate`). On
this rests the rule of incomplete sources: a list that was not read completely decides nothing.
-/

namespace AmoAnalytics.CrmControl

open CivilDate

/-! ## Two evaluations side by side -/

/-- The results over one context. -/
def contextResults (c : Context) : List RuleResult :=
  intakeStage c :: taskSection c ++ [stageDuration c, proposalNote c, dealAge c, offerBudget c,
    proposalFile c, priceRequestedDuration c]

section SideBySide

variable {R : RuleResult → RuleResult → Prop} {c c' : Context}

theorem forall₂_same (hrefl : ∀ r, R r r) (results : List RuleResult) :
    List.Forall₂ R results results := List.forall₂_same.2 fun r _ => hrefl r

/-- The task sections of two contexts with the same open tasks and the same flag. -/
theorem forall₂_taskSection
    (htasks : c'.input.sourceCompleteness.tasks = c.input.sourceCompleteness.tasks)
    (hactive : c'.activeTasks = c.activeTasks)
    (hincomplete : c.input.sourceCompleteness.tasks = false →
      List.Forall₂ R (incompleteTasks c) (incompleteTasks c'))
    (hcount : R (taskCount c) (taskCount c')) (hnone : List.Forall₂ R (noTasks c) (noTasks c'))
    (hresults : c.input.sourceCompleteness.tasks = true → ∀ task ∈ c.activeTasks,
      List.Forall₂ R (taskResults c task) (taskResults c' task)) :
    List.Forall₂ R (taskSection c) (taskSection c') := by
  unfold taskSection
  rw [htasks, hactive]
  cases hflag : c.input.sourceCompleteness.tasks with
  | false => exact hincomplete hflag
  | true =>
    refine List.Forall₂.cons hcount ?_
    by_cases hempty : c.activeTasks = []
    · simpa [hempty] using hnone
    · rw [if_neg hempty, if_neg hempty]
      have hrun : ∀ tasks : List Task, tasks ⊆ c.activeTasks →
          List.Forall₂ R (tasks.flatMap (taskResults c)) (tasks.flatMap (taskResults c')) := by
        intro tasks
        induction tasks with
        | nil => exact fun _ => List.Forall₂.nil
        | cons task tasks ih =>
          intro hsub
          rw [List.flatMap_cons, List.flatMap_cons]
          exact List.rel_append (hresults hflag task (hsub List.mem_cons_self))
            (ih fun t ht => hsub (List.mem_cons_of_mem _ ht))
      exact hrun _ (List.Subset.refl _)

/-- Two evaluations with the same deal, settings and flags, both at a known time. -/
theorem forall₂_evaluate (hrefl : ∀ r, R r r) (dateTimeFormat : String → Option Formatter)
    {input input' : RuleInput} (hdeal : input'.deal = input.deal) (hscope : input'.scope = input.scope)
    (hconfig : input'.config = input.config)
    (hflags : input'.sourceCompleteness = input.sourceCompleteness)
    (hobserved : input'.observedAt.isSome = input.observedAt.isSome)
    (h : ∀ observedAt observedAt' formatter, input.observedAt = some observedAt →
      input'.observedAt = some observedAt' → dateTimeFormat input.config.timeZone = some formatter →
      input.sourceCompleteness.deal = true → input.scope.pipelineId = input.deal.pipelineId →
      List.Forall₂ R (contextResults { input, observedAt, formatter })
        (contextResults { input := input', observedAt := observedAt', formatter })) :
    List.Forall₂ R (evaluateCrmControlDeal dateTimeFormat input)
      (evaluateCrmControlDeal dateTimeFormat input') := by
  unfold evaluateCrmControlDeal
  rw [hdeal, hscope, hconfig, hflags]
  rcases hat : input.observedAt with _ | observedAt
  · have hnone : input'.observedAt = none := by simpa [hat] using hobserved
    rw [hnone]
    exact forall₂_same hrefl _
  rw [hat] at hobserved
  obtain ⟨observedAt', hat'⟩ := Option.isSome_iff_exists.1 hobserved
  rw [hat']
  rcases hformat : dateTimeFormat input.config.timeZone with _ | formatter
  · exact forall₂_same hrefl _
  simp only []
  split_ifs with hdealFlag hpipeline
  · exact forall₂_same hrefl _
  · exact forall₂_same hrefl _
  · exact h observedAt observedAt' formatter hat hat' hformat (by simpa using hdealFlag)
      (not_not.1 hpipeline)

theorem exists_beside {results results' : List RuleResult} (h : List.Forall₂ R results results')
    {r : RuleResult} (hr : r ∈ results) : ∃ r' ∈ results', R r r' := by
  induction h with
  | nil => cases hr
  | cons hab _ ih =>
    rcases List.mem_cons.1 hr with rfl | hr
    · exact ⟨_, List.mem_cons_self, hab⟩
    · obtain ⟨r', hr', hR⟩ := ih hr
      exact ⟨r', List.mem_cons_of_mem _ hr', hR⟩

/-- Results that stand side by side are found by their rule and subject. -/
theorem rel_of_key (hkey : ∀ r r', R r r' → r.key = r'.key) {results results' : List RuleResult}
    (h : List.Forall₂ R results results') (hnodup : (results'.map RuleResult.key).Nodup)
    {r r' : RuleResult} (hr : r ∈ results) (hr' : r' ∈ results') (heq : r'.key = r.key) : R r r' := by
  obtain ⟨r'', hr'', hR⟩ := exists_beside h hr
  have hsame : r'' = r' :=
    List.inj_on_of_nodup_map hnodup hr'' hr' ((hkey _ _ hR).symm.trans heq.symm)
  exact hsame ▸ hR

end SideBySide

/-! ## Verdicts -/

/-- A verdict; `REVIEW` and `UNKNOWN` leave the question open. -/
def ResultStatus.Decided (status : ResultStatus) : Prop :=
  status = .pass ∨ status = .fail ∨ status = .na

/-- The evaluation gives the status for the rule and the subject. -/
def Gives (results : List RuleResult) (ruleCode subject : String) (status : ResultStatus) : Prop :=
  ∃ r ∈ results, r.key = (ruleCode, subject) ∧ r.status = status

/-- The same rule and subject, with the same status or with no verdict on either side. -/
def SameVerdict (r r' : RuleResult) : Prop :=
  r.key = r'.key ∧ (r.status = r'.status ∨ ¬ r.status.Decided ∧ ¬ r'.status.Decided)

theorem SameVerdict.refl (r : RuleResult) : SameVerdict r r := ⟨rfl, Or.inl rfl⟩

theorem SameVerdict.symm {r r' : RuleResult} (h : SameVerdict r r') : SameVerdict r' r :=
  ⟨h.1.symm, h.2.imp Eq.symm And.symm⟩

theorem not_decided {status : ResultStatus} :
    ¬ status.Decided ↔ status = .review ∨ status = .unknown := by
  cases status <;> simp [ResultStatus.Decided]

theorem Gives.of_sameVerdict {results results' : List RuleResult}
    (h : List.Forall₂ SameVerdict results results') {ruleCode subject : String} {status : ResultStatus}
    (hdecided : status.Decided) (hgives : Gives results ruleCode subject status) :
    Gives results' ruleCode subject status := by
  obtain ⟨r, hr, hkey, rfl⟩ := hgives
  obtain ⟨r', hr', hsame, hstatus⟩ := exists_beside h hr
  refine ⟨r', hr', hsame.symm.trans hkey, ?_⟩
  rcases hstatus with hstatus | ⟨hopen, -⟩
  · exact hstatus.symm
  · exact absurd hdecided hopen

/-! ## Notes that were not read completely -/

/-- The same evaluation with other notes. -/
def Context.withNotes (c : Context) (notes : List Note) : Context :=
  { c with input := { c.input with notes } }

section WithNotes

variable (c : Context) (notes : List Note)

theorem withNotes_sales : (c.withNotes notes).sales = c.sales := rfl

theorem withNotes_scope : (c.withNotes notes).input.scope = c.input.scope := rfl

theorem withNotes_deal : (c.withNotes notes).input.deal = c.input.deal := rfl

theorem withNotes_observedAt : (c.withNotes notes).observedAt = c.observedAt := rfl

theorem withNotes_stageEnteredAt : (c.withNotes notes).stageEnteredAt = c.stageEnteredAt := rfl

theorem priceLimit_withNotes : priceLimit (c.withNotes notes) = priceLimit c := rfl

end WithNotes

section Notes

variable {c : Context} (hnotes : c.input.sourceCompleteness.notes = false) (notes : List Note)
include hnotes

theorem stageDuration_withNotes : stageDuration (c.withNotes notes) = stageDuration c := by
  unfold stageDuration Context.withNotes
  simp only [hnotes, Bool.not_false, Bool.or_true, if_true]
  rfl

theorem proposalNote_withNotes : proposalNote (c.withNotes notes) = proposalNote c := by
  unfold proposalNote Context.withNotes
  simp only [hnotes, Bool.not_false, if_true]
  rfl

theorem taskStageDeadline_withNotes (task : Task) :
    taskStageDeadline (c.withNotes notes) task = taskStageDeadline c task := by
  unfold taskStageDeadline Context.withNotes
  simp only [hnotes, Bool.not_false, Bool.or_true, if_true]
  rfl

/-- Past its limit, a price request is either reviewed or unknown. -/
theorem priceOverdue_not_decided (entered : ℤ) : ¬ (priceOverdue c entered).status.Decided := by
  rw [not_decided]
  unfold priceOverdue
  simp only [hnotes, Bool.not_false, Bool.true_or, if_true]
  split_ifs
  · exact Or.inl rfl
  · exact Or.inr rfl

theorem priceRequestedDuration_withNotes :
    SameVerdict (priceRequestedDuration c) (priceRequestedDuration (c.withNotes notes)) := by
  refine ⟨(priceRequestedDuration_key c).trans (priceRequestedDuration_key _).symm, ?_⟩
  have hopen := priceOverdue_not_decided hnotes
  have hopen' := priceOverdue_not_decided (c := c.withNotes notes) hnotes
  unfold priceRequestedDuration
  simp only [withNotes_sales, withNotes_scope, withNotes_deal, withNotes_observedAt,
    withNotes_stageEnteredAt, priceLimit_withNotes]
  by_cases hsales : c.sales = true
  · exact Or.inl (by simp only [hsales, if_true]; rfl)
  simp only [hsales, Bool.false_eq_true, if_false]
  by_cases habsent : c.input.scope.priceRequestedStageId = .absent
  · exact Or.inl (by simp only [habsent, if_true]; rfl)
  simp only [habsent, if_false]
  rcases c.input.scope.priceRequestedStageId.chosen with _ | stageId
  · exact Or.inl rfl
  by_cases hstage : c.input.deal.stageId = stageId
  swap
  · exact Or.inl (by simp only [hstage, ne_eq, not_false_eq_true, if_true]; rfl)
  simp only [hstage, ne_eq, not_true, if_false]
  by_cases hunlimited : (priceLimit c).mode = .unlimited ∧ (priceLimit c).reason = none
  · exact Or.inl (by simp only [hunlimited, and_self, if_true]; rfl)
  simp only [hunlimited, if_false]
  rcases (priceLimit c).deadline with _ | deadline
  · exact Or.inl rfl
  rcases c.stageEnteredAt with _ | entered
  · exact Or.inl rfl
  by_cases hmode : (priceLimit c).mode = .endOfDay
  · refine Or.inl ?_
    simp only [hmode, if_true]
    by_cases hbefore : c.observedAt < deadline
    · simp only [hbefore, if_true]
      rfl
    · simp only [hbefore, if_false]
      rfl
  · simp only [hmode, if_false]
    by_cases hbefore : c.observedAt ≤ deadline
    · exact Or.inl (by simp only [hbefore, if_true]; rfl)
    · simp only [hbefore, if_false]
      exact Or.inr ⟨hopen entered, hopen' entered⟩

/-- Two evaluations that differ in the notes agree on every verdict. -/
theorem sameVerdict_withNotes :
    List.Forall₂ SameVerdict (contextResults c) (contextResults (c.withNotes notes)) := by
  have htasks : List.Forall₂ SameVerdict (taskSection c) (taskSection (c.withNotes notes)) := by
    refine forall₂_taskSection rfl rfl (fun _ => ?_) (SameVerdict.refl _) ?_ fun _ task _ => ?_
    · exact forall₂_same SameVerdict.refl (incompleteTasks c)
    · exact forall₂_same SameVerdict.refl (noTasks c)
    · have hsame : taskResults (c.withNotes notes) task = taskResults c task := by
        unfold taskResults
        rw [taskStageDeadline_withNotes hnotes]
        rfl
      rw [hsame]
      exact forall₂_same SameVerdict.refl _
  unfold contextResults
  rw [stageDuration_withNotes hnotes, proposalNote_withNotes hnotes]
  refine List.rel_append (List.Forall₂.cons (SameVerdict.refl (intakeStage c)) htasks) ?_
  have hprice := priceRequestedDuration_withNotes hnotes notes
  exact .cons (SameVerdict.refl _) (.cons (SameVerdict.refl _) (.cons (SameVerdict.refl (dealAge c))
    (.cons (SameVerdict.refl (offerBudget c)) (.cons (SameVerdict.refl (proposalFile c))
      (.cons hprice .nil)))))

end Notes

/-! ## The rule of incomplete sources -/

section Sources

variable (dateTimeFormat : String → Option Formatter) (input : RuleInput)

/-- Tasks that were not read completely are not used at all. -/
theorem evaluate_tasks (h : input.sourceCompleteness.tasks = false) (tasks : List Task) :
    evaluateCrmControlDeal dateTimeFormat { input with tasks } =
      evaluateCrmControlDeal dateTimeFormat input := by
  have hsection : ∀ observedAt formatter,
      taskSection { input := { input with tasks }, observedAt, formatter } =
        taskSection { input, observedAt, formatter } := by
    intro observedAt formatter
    unfold taskSection
    simp only [h, Bool.not_false, if_true]
    rfl
  unfold evaluateCrmControlDeal
  simp only [hsection]
  rfl

/-- A stage entry that is not certified is not used at all. -/
theorem evaluate_stageEnteredAt (h : input.sourceCompleteness.stageHistory = false)
    (stageEnteredAt : Option ℤ) :
    evaluateCrmControlDeal dateTimeFormat { input with stageEnteredAt } =
      evaluateCrmControlDeal dateTimeFormat input := by
  obtain ⟨_, _, _, _, _, _, ⟨_, _, _, _, _⟩, _, _⟩ := input
  obtain rfl : _ = false := h
  rfl

/-- Notes that were not read completely lead to no verdict. -/
theorem evaluate_notes (h : input.sourceCompleteness.notes = false) (notes : List Note) :
    List.Forall₂ SameVerdict (evaluateCrmControlDeal dateTimeFormat input)
      (evaluateCrmControlDeal dateTimeFormat { input with notes }) := by
  refine forall₂_evaluate SameVerdict.refl dateTimeFormat rfl rfl rfl rfl rfl ?_
  intro observedAt observedAt' formatter hat hat' _ _ _
  obtain rfl : observedAt = observedAt' := Option.some.inj (hat.symm.trans hat')
  exact sameVerdict_withNotes (c := { input, observedAt, formatter }) h notes

/-- Without the complete state of the deal there is no verdict at all. -/
theorem evaluate_deal (h : input.sourceCompleteness.deal = false) :
    ∀ result ∈ evaluateCrmControlDeal dateTimeFormat input, result.status = .unknown := by
  have hunknown : ∀ sales message, ∀ r ∈ allUnknown sales message, r.status = .unknown := by
    intro sales message r hr
    obtain ⟨code, -, rfl⟩ := List.mem_map.1 hr
    rfl
  unfold evaluateCrmControlDeal
  rcases input.observedAt with _ | observedAt
  · exact hunknown _ _
  · rcases dateTimeFormat input.config.timeZone with _ | formatter
    · exact hunknown _ _
    · simp only [h, Bool.not_false, if_true]
      exact hunknown _ _

/-- **Incomplete sources cannot decide.** A list of tasks or a stage entry behind a false flag does
not change any result, notes behind a false flag do not change any verdict, and without the deal
every result is `UNKNOWN`. -/
theorem incomplete_sources_cannot_decide :
    (input.sourceCompleteness.tasks = false → ∀ tasks,
      evaluateCrmControlDeal dateTimeFormat { input with tasks } =
        evaluateCrmControlDeal dateTimeFormat input) ∧
    (input.sourceCompleteness.notes = false → ∀ notes ruleCode subject status, status.Decided →
      (Gives (evaluateCrmControlDeal dateTimeFormat { input with notes }) ruleCode subject status ↔
        Gives (evaluateCrmControlDeal dateTimeFormat input) ruleCode subject status)) ∧
    (input.sourceCompleteness.stageHistory = false → ∀ stageEnteredAt,
      evaluateCrmControlDeal dateTimeFormat { input with stageEnteredAt } =
        evaluateCrmControlDeal dateTimeFormat input) ∧
    (input.sourceCompleteness.deal = false →
      ∀ result ∈ evaluateCrmControlDeal dateTimeFormat input, result.status = .unknown) := by
  refine ⟨fun h tasks => evaluate_tasks dateTimeFormat input h tasks, ?_,
    fun h entry => evaluate_stageEnteredAt dateTimeFormat input h entry,
    evaluate_deal dateTimeFormat input⟩
  intro h notes ruleCode subject status hdecided
  have hsame := evaluate_notes dateTimeFormat input h notes
  constructor
  · exact Gives.of_sameVerdict (hsame.flip.imp fun _ _ => SameVerdict.symm) hdecided
  · exact Gives.of_sameVerdict hsame hdecided

end Sources

section Sample

/-- Universal time. -/
def utcFormatter : Formatter := fun time =>
  let clock := timeOfDay time
  ⟨utcYear time, utcMonth time + 1, utcDate time, clock / hour, clock / 60_000 % 60, clock / 1_000 % 60⟩

/-- A deal whose tasks, notes and stage entry were not read completely. -/
def partialInput (deal : Bool) : RuleInput where
  deal := ⟨"1", "1", "Сделка", some 0, "p", "s", none⟩
  tasks := [⟨"t", "t", "", none, some 0, false, .null⟩]
  notes := []
  communications := []
  stageEnteredAt := some 0
  observedAt := some 1_000_000_000
  sourceCompleteness := ⟨deal, false, false, false, true⟩
  config := { timeZone := "UTC" }
  scope := { department := .csm, pipelineId := "p", preparedProposalStageId := .stage "s" }

theorem incomplete_sources_cannot_decide_sample :
    (evaluateCrmControlDeal (fun _ => some utcFormatter) { partialInput true with tasks := [] } =
        evaluateCrmControlDeal (fun _ => some utcFormatter) (partialInput true) ∧
      (Gives (evaluateCrmControlDeal (fun _ => some utcFormatter)
          { partialInput true with notes := [⟨"n", "n", "common", some "перенос", some 0, .null⟩] })
          "proposal_note" "" .fail ↔
        Gives (evaluateCrmControlDeal (fun _ => some utcFormatter) (partialInput true))
          "proposal_note" "" .fail) ∧
      evaluateCrmControlDeal (fun _ => some utcFormatter)
          { partialInput true with stageEnteredAt := none } =
        evaluateCrmControlDeal (fun _ => some utcFormatter) (partialInput true)) ∧
    ∀ result ∈ evaluateCrmControlDeal (fun _ => some utcFormatter) (partialInput false),
      result.status = .unknown := by
  obtain ⟨htasks, hnotes, hentry, -⟩ :=
    incomplete_sources_cannot_decide (fun _ => some utcFormatter) (partialInput true)
  obtain ⟨-, -, -, hdeal⟩ :=
    incomplete_sources_cannot_decide (fun _ => some utcFormatter) (partialInput false)
  exact ⟨⟨htasks rfl _, hnotes rfl _ _ _ _ (Or.inr (Or.inl rfl)), hentry rfl _⟩, hdeal rfl⟩

end Sample

end AmoAnalytics.CrmControl
