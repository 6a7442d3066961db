import AmoAnalytics.Lib.JoinedKey
import AmoAnalytics.CrmControl.Rules

/-!
# One result for each rule and subject

The rule engine never emits two results with the same rule and subject: a rule of the deal speaks
once and without a subject, a rule of a task once for each open task, and the open tasks have
pairwise different subjects.
-/

namespace AmoAnalytics.CrmControl

@[simp] theorem ruleResult_key (sales : Bool) (code : RuleCode) (status : ResultStatus)
    (message : String) (extra : ResultExtra) :
    (ruleResult sales code status message extra).key = (code.code, extra.subjectId.getD "") := rfl

@[simp] theorem Context.add_key (c : Context) (code : RuleCode) (status : ResultStatus)
    (message : String) (extra : ResultExtra) :
    (c.add code status message extra).key = (code.code, extra.subjectId.getD "") := rfl

@[simp] theorem Context.add_status (c : Context) (code : RuleCode) (status : ResultStatus)
    (message : String) (extra : ResultExtra) : (c.add code status message extra).status = status := rfl

/-- No rule code contains the separator of the case keys. -/
theorem RuleCode.free_code (code : RuleCode) : JoinedKey.Free ':' code.code := by
  cases code <;> decide

/-! ## The rules of the deal -/

section Deal

variable (c : Context)

theorem intakeStage_key : (intakeStage c).key = (RuleCode.intakeStage.code, "") := by
  simp only [intakeStage]
  repeat' (first | (rw [Context.add_key]; rfl) | split)

theorem stageDuration_key : (stageDuration c).key = (RuleCode.stageDuration.code, "") := by
  simp only [stageDuration]
  repeat' (first | (rw [Context.add_key]; rfl) | split)

theorem proposalNote_key : (proposalNote c).key = (RuleCode.proposalNote.code, "") := by
  simp only [proposalNote]
  repeat' (first | (rw [Context.add_key]; rfl) | split)

theorem dealAge_key : (dealAge c).key = (RuleCode.dealAge.code, "") := by
  simp only [dealAge]
  repeat' (first | (rw [Context.add_key]; rfl) | split)

theorem priceRequestedDuration_key :
    (priceRequestedDuration c).key = (RuleCode.priceRequestedDuration.code, "") := by
  simp only [priceRequestedDuration, priceOverdue]
  repeat' (first | (rw [Context.add_key]; rfl) | split)

end Deal

/-! ## The rules of a task -/

section Tasks

variable (c : Context) (task : Task)

theorem taskDeadline_key :
    (taskDeadline c task).key = (RuleCode.taskDeadline.code, taskSubject task) := by
  simp only [taskDeadline]
  repeat' (first | (rw [Context.add_key]; rfl) | split)

theorem taskType_key : (taskType c task).key = (RuleCode.taskType.code, taskSubject task) := by
  simp only [taskType]
  repeat' (first | (rw [Context.add_key]; rfl) | split)

theorem taskStageDeadline_key :
    (taskStageDeadline c task).key = (RuleCode.taskStageDeadline.code, taskSubject task) := by
  simp only [taskStageDeadline]
  repeat' (first | (rw [Context.add_key]; rfl) | split)

/-- The rules checked for every open task. -/
def taskRules : List RuleCode := [.taskDeadline, .taskType, .taskText, .taskStageDeadline]

theorem taskResults_keys :
    (taskResults c task).map RuleResult.key =
      taskRules.map fun code => (code.code, taskSubject task) := by
  simp only [taskResults, taskRules, List.map_cons, List.map_nil, taskDeadline_key, taskType_key,
    taskStageDeadline_key]
  rfl

/-- An open task of the context is an open task of the input. -/
theorem Context.mem_activeTasks {task : Task} (h : task ∈ c.activeTasks) :
    task ∈ c.input.tasks ∧ task.isCompleted = false := by
  obtain ⟨entry, hentry, rfl⟩ := List.mem_map.1 h
  obtain ⟨t, ht, rfl⟩ := List.mem_map.1 (JsMap.mem_of_mem_ofEntries hentry)
  simpa using List.mem_filter.1 ht

theorem Context.nodup_activeTasks_subject : (c.activeTasks.map taskSubject).Nodup := by
  have hkeys := JsMap.nodup_keys_ofEntries
    ((c.input.tasks.filter fun task => !task.isCompleted).map fun task => (taskSubject task, task))
  have hsubject : c.activeTasks.map taskSubject = (JsMap.ofEntries
      ((c.input.tasks.filter fun task => !task.isCompleted).map fun task =>
        (taskSubject task, task))).map Prod.fst := by
    unfold Context.activeTasks JsMap.values
    rw [List.map_map]
    refine List.map_congr_left fun entry hentry => ?_
    obtain ⟨t, -, rfl⟩ := List.mem_map.1 (JsMap.mem_of_mem_ofEntries hentry)
    rfl
  rw [hsubject]
  exact hkeys

end Tasks

/-! ## All rules -/

theorem nodup_codes {codes : List RuleCode} (h : codes.Nodup) (subject : String) :
    (codes.map fun code => (code.code, subject)).Nodup :=
  h.map fun _ _ hab => RuleCode.code_injective (congrArg Prod.fst hab)

/-- Every task result belongs to one of the five task rules. -/
theorem mem_taskSection_key (c : Context) {key : String × String}
    (h : key ∈ (taskSection c).map RuleResult.key) :
    ∃ code ∈ RuleCode.taskCount :: taskRules, key.1 = code.code := by
  unfold taskSection at h
  split_ifs at h with htasks hnone
  · obtain ⟨r, hr, rfl⟩ := List.mem_map.1 h
    obtain ⟨code, hcode, rfl⟩ := List.mem_map.1 hr
    refine ⟨code, ?_, by split_ifs <;> rfl⟩
    fin_cases hcode <;> simp [taskRules]
  · simp only [noTasks, List.map_cons, List.map_nil, Context.add_key, List.mem_cons,
      List.not_mem_nil, or_false, taskCount] at h
    rcases h with rfl | rfl | rfl | rfl | rfl
    · exact ⟨.taskCount, by simp, rfl⟩
    · exact ⟨.taskDeadline, by simp [taskRules], rfl⟩
    · exact ⟨.taskType, by simp [taskRules], rfl⟩
    · exact ⟨.taskText, by simp [taskRules], rfl⟩
    · exact ⟨.taskStageDeadline, by simp [taskRules], rfl⟩
  · rw [List.map_cons, List.mem_cons] at h
    rcases h with rfl | h
    · exact ⟨.taskCount, by simp, rfl⟩
    · rw [List.map_flatMap, List.mem_flatMap] at h
      obtain ⟨task, -, hkey⟩ := h
      rw [taskResults_keys] at hkey
      obtain ⟨code, hcode, rfl⟩ := List.mem_map.1 hkey
      exact ⟨code, List.mem_cons_of_mem _ hcode, rfl⟩

theorem nodup_taskSection (c : Context) : ((taskSection c).map RuleResult.key).Nodup := by
  unfold taskSection
  split_ifs with htasks hnone
  · have hkeys : (incompleteTasks c).map RuleResult.key =
        [RuleCode.taskDeadline, .taskCount, .taskType, .taskText, .taskStageDeadline].map
          fun code => (code.code, "") := by
      unfold incompleteTasks
      rw [List.map_map]
      refine List.map_congr_left fun code _ => ?_
      simp only [Function.comp_apply]
      split_ifs <;> rfl
    rw [hkeys]
    exact nodup_codes (by decide) ""
  · exact nodup_codes (by decide : (RuleCode.taskCount :: taskRules).Nodup) ""
  · rw [List.map_cons, List.map_flatMap]
    simp only [taskResults_keys]
    refine List.nodup_cons.2 ⟨fun hmem => ?_, List.nodup_flatMap.2 ⟨fun task _ => ?_, ?_⟩⟩
    · obtain ⟨task, -, hkey⟩ := List.mem_flatMap.1 hmem
      obtain ⟨code, hcode, heq⟩ := List.mem_map.1 hkey
      have : code = .taskCount := RuleCode.code_injective (congrArg Prod.fst heq)
      subst this
      simp [taskRules] at hcode
    · exact nodup_codes (by decide) _
    · refine (List.pairwise_map.1 c.nodup_activeTasks_subject).imp fun {a b} hab key ha hb => hab ?_
      obtain ⟨_, -, rfl⟩ := List.mem_map.1 ha
      obtain ⟨_, -, heq⟩ := List.mem_map.1 hb
      exact (congrArg Prod.snd heq).symm

/-- The rules of the deal that follow the task rules. -/
def laterDealRules : List RuleCode :=
  [.stageDuration, .proposalNote, .dealAge, .offerBudget, .proposalFile, .priceRequestedDuration]

/-- The keys of an evaluation: all rules at once without a subject, or the intake rule, the task
rules and the later rules of the deal. -/
theorem evaluate_keys (dateTimeFormat : String → Option Formatter) (input : RuleInput) :
    (evaluateCrmControlDeal dateTimeFormat input).map RuleResult.key =
        RuleCode.all.map (fun code => (code.code, "")) ∨
      ∃ c : Context, c.input = input ∧ (evaluateCrmControlDeal dateTimeFormat input).map RuleResult.key =
        (RuleCode.intakeStage.code, "") :: ((taskSection c).map RuleResult.key ++
          laterDealRules.map fun code => (code.code, "")) := by
  have hall : ∀ sales message, (allUnknown sales message).map RuleResult.key =
      RuleCode.all.map fun code => (code.code, "") := by
    intro sales message
    simp [allUnknown, Function.comp_def]
  unfold evaluateCrmControlDeal
  split
  · exact Or.inl (hall _ _)
  · exact Or.inl (hall _ _)
  · rename_i observedAt formatter _ _
    split_ifs
    · exact Or.inl (hall _ _)
    · exact Or.inl (hall _ _)
    · refine Or.inr ⟨{ input, observedAt, formatter }, rfl, ?_⟩
      rw [List.cons_append, List.map_cons, List.map_append, intakeStage_key]
      simp only [laterDealRules, List.map_cons, List.map_nil, stageDuration_key, proposalNote_key,
        dealAge_key, priceRequestedDuration_key]
      rfl

/-- **Uniqueness.** An evaluation holds at most one result for each rule and subject. -/
theorem nodup_evaluate (dateTimeFormat : String → Option Formatter) (input : RuleInput) :
    ((evaluateCrmControlDeal dateTimeFormat input).map RuleResult.key).Nodup := by
  rcases evaluate_keys dateTimeFormat input with h | ⟨c, -, h⟩
  · rw [h]
    exact nodup_codes (by decide) ""
  rw [h]
  -- the three groups hold results of different rules
  have hne : ∀ (code : RuleCode) (key : String × String), code ∉ RuleCode.taskCount :: taskRules →
      key ∈ (taskSection c).map RuleResult.key → key.1 ≠ code.code := by
    intro code key hcode hkey heq
    obtain ⟨code', hcode', heq'⟩ := mem_taskSection_key c hkey
    exact hcode (RuleCode.code_injective (heq.symm.trans heq') ▸ hcode')
  refine List.nodup_cons.2 ⟨fun hmem => ?_, List.nodup_append.2
    ⟨nodup_taskSection c, nodup_codes (by decide) "", fun a ha b hb hab => ?_⟩⟩
  · rcases List.mem_append.1 hmem with h | h
    · exact hne .intakeStage _ (by decide) h rfl
    · obtain ⟨code, hcode, heq⟩ := List.mem_map.1 h
      obtain rfl : code = .intakeStage := RuleCode.code_injective (congrArg Prod.fst heq)
      exact absurd hcode (by decide)
  · obtain ⟨code, hcode, rfl⟩ := List.mem_map.1 hb
    refine hne code a (fun htask => ?_) ha (congrArg Prod.fst hab)
    have hdisjoint : ∀ code ∈ laterDealRules, code ∉ RuleCode.taskCount :: taskRules := by decide
    exact hdisjoint code hcode htask

/-! ## Coverage -/

/-- The codes of `CRM_CONTROL_RULE_CATALOG`. -/
def crmControlRuleCatalog : List String :=
  ["intake_stage", "task_deadline", "task_count", "task_type", "task_text", "task_stage_deadline", "stage_duration",
    "proposal_note", "deal_age", "offer_budget", "proposal_file", "price_requested_duration"]

/-- The catalogue lists the rules that the engine names. -/
theorem catalog_eq : crmControlRuleCatalog = RuleCode.all.map RuleCode.code := rfl

/-- The task section has a result of each of its rules. -/
theorem exists_mem_taskSection (c : Context) {code : RuleCode} (h : code ∈ RuleCode.taskCount :: taskRules) :
    ∃ subject, (code.code, subject) ∈ (taskSection c).map RuleResult.key := by
  unfold taskSection
  split_ifs with htasks hnone
  · have hcode : code ∈ [RuleCode.taskDeadline, .taskCount, .taskType, .taskText, .taskStageDeadline] := by
      revert code
      decide
    refine ⟨"", List.mem_map.2 ⟨_, List.mem_map_of_mem hcode, ?_⟩⟩
    split_ifs <;> rfl
  · exact ⟨"", List.mem_map_of_mem (f := fun code : RuleCode => (code.code, "")) h⟩
  · rcases List.mem_cons.1 h with rfl | hrule
    · exact ⟨"", List.mem_cons_self⟩
    · obtain ⟨task, htask⟩ := List.exists_mem_of_ne_nil _ hnone
      refine ⟨taskSubject task, List.mem_cons_of_mem _ ?_⟩
      rw [List.map_flatMap]
      refine List.mem_flatMap.2 ⟨task, htask, ?_⟩
      rw [taskResults_keys]
      exact List.mem_map_of_mem (f := fun code : RuleCode => (code.code, taskSubject task)) hrule

/-- An evaluation has a result of every rule. -/
theorem exists_mem_evaluate (dateTimeFormat : String → Option Formatter) (input : RuleInput) (code : RuleCode) :
    ∃ result ∈ evaluateCrmControlDeal dateTimeFormat input, result.ruleCode = code.code := by
  have hall : code ∈ RuleCode.all := by cases code <;> decide
  have hsplit : code = .intakeStage ∨ code ∈ RuleCode.taskCount :: taskRules ∨ code ∈ laterDealRules := by
    cases code <;> decide
  have hkey : ∃ subject, (code.code, subject) ∈
      (evaluateCrmControlDeal dateTimeFormat input).map RuleResult.key := by
    rcases evaluate_keys dateTimeFormat input with h | ⟨c, -, h⟩
    · rw [h]
      exact ⟨"", List.mem_map_of_mem (f := fun code : RuleCode => (code.code, "")) hall⟩
    rw [h]
    rcases hsplit with rfl | htask | hlater
    · exact ⟨"", List.mem_cons_self⟩
    · obtain ⟨subject, hmem⟩ := exists_mem_taskSection c htask
      exact ⟨subject, List.mem_cons_of_mem _ (List.mem_append_left _ hmem)⟩
    · exact ⟨"", List.mem_cons_of_mem _ (List.mem_append_right _
        (List.mem_map_of_mem (f := fun code : RuleCode => (code.code, "")) hlater))⟩
  obtain ⟨subject, hmem⟩ := hkey
  obtain ⟨result, hresult, heq⟩ := List.mem_map.1 hmem
  exact ⟨result, hresult, congrArg Prod.fst heq⟩

/-- **Coverage.** Every rule of the catalogue has a result in every evaluation, and no rule has two results for
one subject. -/
theorem catalog_covered_once (dateTimeFormat : String → Option Formatter) (input : RuleInput) :
    (∀ code ∈ crmControlRuleCatalog, ∃ result ∈ evaluateCrmControlDeal dateTimeFormat input,
      result.ruleCode = code) ∧
    (evaluateCrmControlDeal dateTimeFormat input).Pairwise fun result other =>
      ¬ (result.ruleCode = other.ruleCode ∧ result.subject = other.subject) := by
  constructor
  · intro code hcode
    rw [catalog_eq] at hcode
    obtain ⟨rule, -, rfl⟩ := List.mem_map.1 hcode
    exact exists_mem_evaluate dateTimeFormat input rule
  · exact (List.pairwise_map.1 (nodup_evaluate dateTimeFormat input)).imp fun hne heq =>
      hne (Prod.ext heq.1 heq.2)

/-- Every result of an evaluation belongs to a rule of the catalogue. -/
theorem exists_code_of_mem_evaluate {dateTimeFormat : String → Option Formatter} {input : RuleInput}
    {result : RuleResult} (h : result ∈ evaluateCrmControlDeal dateTimeFormat input) :
    ∃ code : RuleCode, result.ruleCode = code.code := by
  have hkey := List.mem_map_of_mem (f := RuleResult.key) h
  rcases evaluate_keys dateTimeFormat input with heq | ⟨c, -, heq⟩ <;> rw [heq] at hkey
  · obtain ⟨code, -, hcode⟩ := List.mem_map.1 hkey
    exact ⟨code, (congrArg Prod.fst hcode).symm⟩
  rcases List.mem_cons.1 hkey with hintake | hkey
  · exact ⟨.intakeStage, congrArg Prod.fst hintake⟩
  rcases List.mem_append.1 hkey with htask | hlater
  · obtain ⟨code, -, hcode⟩ := mem_taskSection_key c htask
    exact ⟨code, hcode⟩
  · obtain ⟨code, -, hcode⟩ := List.mem_map.1 hlater
    exact ⟨code, (congrArg Prod.fst hcode).symm⟩

/-- A result with a subject speaks about an open task of the input. -/
theorem subject_of_mem_evaluate {dateTimeFormat : String → Option Formatter} {input : RuleInput}
    {result : RuleResult} (h : result ∈ evaluateCrmControlDeal dateTimeFormat input)
    (hsubject : result.subject ≠ "") :
    ∃ task ∈ input.tasks, task.isCompleted = false ∧ taskSubject task = result.subject := by
  have hkey := List.mem_map_of_mem (f := RuleResult.key) h
  have hplain : ∀ codes : List RuleCode, result.key ∉ codes.map fun code => (code.code, "") := by
    intro codes hmem
    obtain ⟨code, -, heq⟩ := List.mem_map.1 hmem
    exact hsubject (congrArg Prod.snd heq).symm
  rcases evaluate_keys dateTimeFormat input with heq | ⟨c, rfl, heq⟩ <;> rw [heq] at hkey
  · exact absurd hkey (hplain _)
  rcases List.mem_cons.1 hkey with hintake | hkey
  · exact absurd (congrArg Prod.snd hintake) hsubject
  rcases List.mem_append.1 hkey with htask | hlater
  · unfold taskSection at htask
    split_ifs at htask with htasks hnone
    · obtain ⟨r, hr, hrkey⟩ := List.mem_map.1 htask
      obtain ⟨code, -, rfl⟩ := List.mem_map.1 hr
      refine absurd ((congrArg Prod.snd hrkey).symm.trans ?_) hsubject
      split_ifs <;> rfl
    · exact absurd htask (hplain (.taskCount :: taskRules))
    · rw [List.map_cons, List.mem_cons, List.map_flatMap, List.mem_flatMap] at htask
      rcases htask with hcount | ⟨task, htask, hmem⟩
      · exact absurd (congrArg Prod.snd hcount) hsubject
      · rw [taskResults_keys] at hmem
        obtain ⟨code, -, hkey'⟩ := List.mem_map.1 hmem
        obtain ⟨hinput, hopen⟩ := c.mem_activeTasks htask
        exact ⟨task, hinput, hopen, congrArg Prod.snd hkey'⟩
  · exact absurd hlater (hplain _)

/-! ## The unlimited stage -/

/-- The details of a task never carry the flag of the whole deal. -/
theorem taskDetails_not_all (c : Context) (task : Task) :
    Details.isTrue (some (taskDetails task ++ c.deadlineDetails ++ resolvesPrior))
      "resolvesAllSubjects" = false := by
  have hnone : JsMap.get? "resolvesAllSubjects"
      (taskDetails task ++ c.deadlineDetails ++ resolvesPrior) = none := by
    unfold JsMap.get?
    rw [Option.map_eq_none_iff, List.find?_eq_none]
    intro field hfield
    simp only [taskDetails, Context.deadlineDetails, resolvesPrior, List.mem_append, List.mem_cons,
      List.not_mem_nil, or_false, Option.mem_toList, Option.map_eq_some_iff] at hfield
    rcases hfield with ((rfl | rfl | rfl) | (((rfl | rfl | rfl | rfl) | ⟨_, _, rfl⟩) | ⟨_, _, rfl⟩)) | rfl <;>
      simp
  unfold Details.isTrue
  rw [Option.bind_some, hnone]

/-- The flag of the whole deal is only raised where the tasks were not read completely. -/
theorem incomplete_of_allSubjects {c : Context} {result : RuleResult} (h : result ∈ taskSection c)
    (hcode : result.ruleCode = RuleCode.taskStageDeadline.code) (hna : result.status = .na)
    (hflag : Details.isTrue result.details "resolvesAllSubjects" = true) :
    c.input.sourceCompleteness.tasks = false := by
  have hother : ∀ {code : RuleCode} {subject : String}, result.key = (code.code, subject) →
      code ≠ .taskStageDeadline → False := fun hkey hne =>
    hne (RuleCode.code_injective ((congrArg Prod.fst hkey).symm.trans hcode))
  unfold taskSection at h
  split_ifs at h with htasks hnone
  · simpa using htasks
  · simp only [noTasks, List.map_cons, List.map_nil, List.mem_cons, List.not_mem_nil, or_false] at h
    rcases h with rfl | rfl | rfl | rfl | rfl
    · exact (hother (Context.add_key c .taskCount _ _ _) (by decide)).elim
    all_goals exact (Bool.false_ne_true hflag).elim
  · exfalso
    rcases List.mem_cons.1 h with rfl | h
    · exact hother (Context.add_key c .taskCount _ _ _) (by decide)
    obtain ⟨task, -, h⟩ := List.mem_flatMap.1 h
    simp only [taskResults, List.mem_cons, List.not_mem_nil, or_false] at h
    rcases h with rfl | rfl | rfl | rfl
    · exact hother (taskDeadline_key c task) (by decide)
    · exact hother (taskType_key c task) (by decide)
    · exact hother (Context.add_key c .taskText _ _ _) (by decide)
    · simp only [taskStageDeadline] at hna hflag
      split at hna
      · rename_i hunlimited
        rw [if_pos hunlimited] at hflag
        exact Bool.false_ne_true ((taskDetails_not_all c task).symm.trans hflag)
      · repeat' (first | (rw [Context.add_status] at hna; cases hna) | split at hna)

/-- A result of the task deadline comes from the task section. -/
theorem mem_taskSection_of_code {c : Context} {result : RuleResult}
    (h : result ∈ intakeStage c :: taskSection c ++ [stageDuration c, proposalNote c, dealAge c,
      offerBudget c, proposalFile c, priceRequestedDuration c])
    (hcode : result.ruleCode = RuleCode.taskStageDeadline.code) : result ∈ taskSection c := by
  have hother : ∀ {code : RuleCode} {subject : String}, result.key = (code.code, subject) →
      code ≠ .taskStageDeadline → False := fun hkey hne =>
    hne (RuleCode.code_injective ((congrArg Prod.fst hkey).symm.trans hcode))
  simp only [List.cons_append, List.mem_cons, List.mem_append, List.not_mem_nil, or_false] at h
  rcases h with rfl | h | rfl | rfl | rfl | rfl | rfl | rfl
  · exact (hother (intakeStage_key c) (by decide)).elim
  · exact h
  · exact (hother (stageDuration_key c) (by decide)).elim
  · exact (hother (proposalNote_key c) (by decide)).elim
  · exact (hother (dealAge_key c) (by decide)).elim
  · exact (hother (Context.add_key c .offerBudget _ _ _) (by decide)).elim
  · exact (hother (Context.add_key c .proposalFile _ _ _) (by decide)).elim
  · exact (hother (priceRequestedDuration_key c) (by decide)).elim

/-- Where the stage of the deal is declared unlimited for all subjects, no rule of the task deadline
finds a violation. -/
theorem stageDeadline_of_allSubjects {dateTimeFormat : String → Option Formatter} {input : RuleInput}
    {flagged result : RuleResult} (hflagged : flagged ∈ evaluateCrmControlDeal dateTimeFormat input)
    (hcode : flagged.ruleCode = RuleCode.taskStageDeadline.code) (hna : flagged.status = .na)
    (hflag : Details.isTrue flagged.details "resolvesAllSubjects" = true)
    (h : result ∈ evaluateCrmControlDeal dateTimeFormat input)
    (hresult : result.ruleCode = RuleCode.taskStageDeadline.code) :
    result.status = .na ∨ result.status = .unknown := by
  have hunknown : ∀ sales message, ∀ r ∈ allUnknown sales message, r.status = .unknown := by
    intro sales message r hr
    obtain ⟨code, -, rfl⟩ := List.mem_map.1 hr
    rfl
  unfold evaluateCrmControlDeal at hflagged h
  split at h
  · exact Or.inr (hunknown _ _ _ h)
  · exact Or.inr (hunknown _ _ _ h)
  · rename_i observedAt formatter hobs hformat
    simp only [hobs, hformat] at hflagged
    split_ifs at hflagged h
    · exact Or.inr (hunknown _ _ _ h)
    · exact Or.inr (hunknown _ _ _ h)
    · have htasks : input.sourceCompleteness.tasks = false :=
        incomplete_of_allSubjects (mem_taskSection_of_code hflagged hcode) hcode hna hflag
      have hsection := mem_taskSection_of_code h hresult
      unfold taskSection at hsection
      rw [if_pos (by simp [htasks])] at hsection
      obtain ⟨code, -, rfl⟩ := List.mem_map.1 hsection
      split_ifs
      · exact Or.inl rfl
      · exact Or.inr rfl

end AmoAnalytics.CrmControl
