import AmoAnalytics.CrmControl.Observation
import AmoAnalytics.CrmControl.RuleClock

/-!
# Assessed facts and the clock

The details of a violation are made of the input, the stage entry and the notes and communications it refers to, and
of fields that `assessmentHash` leaves out. A violation found at two times is therefore assessed on the same facts,
and the case of the first is not superseded by the second.
-/

namespace AmoAnalytics.CrmControl

open CivilDate

/-! ## What is assessed -/

/-- The details that go into the facts. -/
def RuleResult.assessed (result : RuleResult) : Details :=
  (result.details.getD []).filter fun field => field.1 ∉ clockDetails

/-- The notes and the communications that a result refers to. -/
def RuleResult.cited (result : RuleResult) : Option Json × Option Json :=
  (JsMap.get? "noteIds" (result.details.getD []), JsMap.get? "communicationIds" (result.details.getD []))

/-- A violation in both results, or a question in both about the same notes and communications. -/
def SameFinding (r r' : RuleResult) : Prop :=
  r.status = .fail ∧ r'.status = .fail ∨ r.status = .review ∧ r'.status = .review ∧ r.cited = r'.cited

/-- Results of the same rule and subject that are assessed alike when they find the same. -/
def SameFacts (r r' : RuleResult) : Prop := r.key = r'.key ∧ (SameFinding r r' → r.assessed = r'.assessed)

theorem SameFacts.refl (r : RuleResult) : SameFacts r r := ⟨rfl, fun _ => rfl⟩

/-- Results that find nothing. -/
theorem SameFacts.of_quiet {r r' : RuleResult} (hkey : r.key = r'.key)
    (h : r.status ≠ .fail ∧ r.status ≠ .review) : SameFacts r r' := by
  refine ⟨hkey, ?_⟩
  rintro (⟨hfail, -⟩ | ⟨hreview, -⟩)
  · exact absurd hfail h.1
  · exact absurd hreview h.2

/-- Details without a field of the clock are assessed as they are. -/
theorem filter_clock {details : Details} (h : ∀ field ∈ details, field.1 ∉ clockDetails) :
    details.filter (fun field => field.1 ∉ clockDetails) = details :=
  List.filter_eq_self.2 fun field hfield => decide_eq_true (h field hfield)

/-- The facts of two results of the same rule that are assessed alike. -/
theorem assessmentFacts_eq {input : RuleInput} {time : Option ℤ} {r r' : RuleResult}
    (hcode : r.ruleCode = r'.ruleCode) (h : r.assessed = r'.assessed) :
    assessmentFacts { input with observedAt := time } r' = assessmentFacts input r := by
  unfold assessmentFacts
  unfold RuleResult.assessed at h
  rw [hcode, ← h]
  rfl

/-! ## The stage entry -/

variable {c : Context} {time : ℤ} {task : Task}

/-- A stage entry known at both times is the same. -/
theorem Context.stageEnteredAt_eq {entered entered' : ℤ} (h : c.stageEnteredAt = some entered)
    (h' : (c.at time).stageEnteredAt = some entered') : (c.at time).stageEnteredAt = c.stageEnteredAt := by
  have hknown : ∀ {c : Context} {entered : ℤ}, c.stageEnteredAt = some entered →
      c.input.stageEnteredAt = some entered := by
    intro c entered h
    unfold stageEnteredAt at h
    split_ifs at h
    exact (Option.filter_eq_some_iff.1 h).1
  rw [h, h', ← hknown h, ← hknown h']
  rfl

theorem Context.limit_eq (h : (c.at time).stageEnteredAt = c.stageEnteredAt) : (c.at time).limit = c.limit := by
  unfold limit
  rw [h]
  rfl

theorem Context.deadlineDetails_eq (h : (c.at time).stageEnteredAt = c.stageEnteredAt) :
    (c.at time).deadlineDetails = c.deadlineDetails := by
  unfold deadlineDetails
  rw [limit_eq h, h]
  rfl

/-- The fields of a deadline. -/
def deadlineFields : List String :=
  ["deadlineMode", "timeZone", "stageEnteredAt", "maximumDueAt", "maxDurationHours", "maxBusinessDays"]

theorem Context.deadlineDetails_fields (c : Context) : ∀ field ∈ c.deadlineDetails, field.1 ∈ deadlineFields := by
  intro field hfield
  unfold deadlineDetails at hfield
  simp only [List.mem_append, List.mem_cons, List.not_mem_nil, or_false, Option.mem_toList, Option.map_eq_some_iff]
    at hfield
  rcases hfield with ((rfl | rfl | rfl | rfl) | ⟨_, -, rfl⟩) | ⟨_, -, rfl⟩ <;> simp [deadlineFields]

/-! ## What a result rests on -/

/-- The fields of what a result refers to. -/
def citedFields (cited : Option Json × Option Json) : Details :=
  (cited.1.map fun ids => ("noteIds", ids)).toList ++ (cited.2.map fun ids => ("communicationIds", ids)).toList

/-- A finding is assessed on these details, and on what it refers to. -/
structure Rests (base : Details) (r : RuleResult) : Prop where
  fail : r.status = .fail → r.assessed = base
  review : r.status = .review → r.assessed = base ++ citedFields r.cited

/-- The result finds something. -/
def Finds (r : RuleResult) : Prop := r.status = .fail ∨ r.status = .review

theorem SameFinding.finds {r r' : RuleResult} (h : SameFinding r r') : Finds r ∧ Finds r' := by
  rcases h with ⟨h, h'⟩ | ⟨h, h', -⟩
  · exact ⟨Or.inl h, Or.inl h'⟩
  · exact ⟨Or.inr h, Or.inr h'⟩

theorem SameFacts.of_rests {base base' : Details} {r r' : RuleResult} (hkey : r.key = r'.key) (h : Rests base r)
    (h' : Rests base' r') (hbase : Finds r → Finds r' → base' = base) : SameFacts r r' := by
  refine ⟨hkey, fun hsame => ?_⟩
  obtain ⟨hfinds, hfinds'⟩ := hsame.finds
  rcases hsame with ⟨hfail, hfail'⟩ | ⟨hreview, hreview', hcited⟩
  · rw [h.fail hfail, h'.fail hfail', hbase hfinds hfinds']
  · rw [h.review hreview, h'.review hreview', hbase hfinds hfinds', hcited]

/-- A result that finds nothing rests on anything. -/
theorem Rests.of_quiet {base : Details} {r : RuleResult} (h : ¬ Finds r) : Rests base r :=
  ⟨fun hfail => absurd (Or.inl hfail) h, fun hreview => absurd (Or.inr hreview) h⟩

theorem Context.add_quiet (c : Context) (code : RuleCode) {status : ResultStatus} (message : String)
    (extra : ResultExtra) (hfail : status ≠ .fail) (hreview : status ≠ .review) :
    ¬ Finds (c.add code status message extra) := by
  rintro (h | h)
  · exact hfail h
  · exact hreview h

/-! ## Details -/

theorem get?_append_of_fields {base more : Details} {key : String} {fields : List String}
    (h : ∀ field ∈ base, field.1 ∈ fields) (hkey : key ∉ fields) :
    JsMap.get? key (base ++ more) = JsMap.get? key more := by
  induction base with
  | nil => rfl
  | cons field base ih =>
    have hne : field.1 ≠ key := fun heq => hkey (heq ▸ h field List.mem_cons_self)
    rw [List.cons_append, JsMap.get?_cons, if_neg hne, ih fun f hf => h f (List.mem_cons_of_mem field hf)]

/-- Details of known fields, then fields of the clock, then references. -/
theorem rests_details {base clock : Details} {fields : List String} (hbase : ∀ field ∈ base, field.1 ∈ fields)
    (hfields : ∀ key ∈ fields, key ∉ "noteIds" :: "communicationIds" :: clockDetails)
    (hclock : ∀ field ∈ clock, field.1 ∈ clockDetails) (cited : Option Json × Option Json) :
    (base ++ clock ++ citedFields cited).filter (fun field => field.1 ∉ clockDetails) = base ++ citedFields cited ∧
      (JsMap.get? "noteIds" (base ++ clock ++ citedFields cited),
        JsMap.get? "communicationIds" (base ++ clock ++ citedFields cited)) = cited := by
  have hkept : base.filter (fun field => field.1 ∉ clockDetails) = base :=
    filter_clock fun field hfield hmem => hfields _ (hbase field hfield)
      (List.mem_cons_of_mem _ (List.mem_cons_of_mem _ hmem))
  have hdropped : clock.filter (fun field => field.1 ∉ clockDetails) = [] :=
    List.filter_eq_nil_iff.2 fun field hfield hkeep => of_decide_eq_true hkeep (hclock field hfield)
  have hnotes : "noteIds" ∉ fields := fun hmem => hfields _ hmem List.mem_cons_self
  have hcommunications : "communicationIds" ∉ fields :=
    fun hmem => hfields _ hmem (List.mem_cons_of_mem _ List.mem_cons_self)
  refine ⟨?_, ?_⟩
  · rw [List.filter_append, List.filter_append, hkept, hdropped, List.append_nil]
    congr 1
    refine filter_clock fun field hfield => ?_
    unfold citedFields at hfield
    simp only [List.mem_append, Option.mem_toList, Option.map_eq_some_iff] at hfield
    rcases hfield with ⟨_, -, rfl⟩ | ⟨_, -, rfl⟩ <;> simp [clockDetails]
  · rw [List.append_assoc, get?_append_of_fields hbase hnotes, get?_append_of_fields hbase hcommunications,
      get?_append_of_fields hclock (by decide), get?_append_of_fields hclock (by decide)]
    obtain ⟨notes, communications⟩ := cited
    cases notes <;> cases communications <;> rfl

theorem rests_add {base clock : Details} {fields : List String} {cited : Option Json × Option Json}
    (hbase : ∀ field ∈ base, field.1 ∈ fields)
    (hfields : ∀ key ∈ fields, key ∉ "noteIds" :: "communicationIds" :: clockDetails)
    (hclock : ∀ field ∈ clock, field.1 ∈ clockDetails) {code : RuleCode} {status : ResultStatus} {message : String}
    {extra : ResultExtra} (hdetails : extra.details = some (base ++ clock ++ citedFields cited))
    (hfail : status = .fail → cited = (none, none)) : Rests base (c.add code status message extra) := by
  obtain ⟨hassessed, hcited⟩ := rests_details hbase hfields hclock cited
  have hsame : (c.add code status message extra).assessed = base ++ citedFields cited := by
    change (extra.details.getD []).filter _ = _
    rw [hdetails]
    exact hassessed
  refine ⟨fun hstatus => ?_, fun _ => ?_⟩
  · rw [hsame, hfail hstatus]
    exact List.append_nil _
  · have hrefers : (c.add code status message extra).cited = cited := by
      change (JsMap.get? "noteIds" (extra.details.getD []), JsMap.get? "communicationIds" (extra.details.getD [])) = _
      rw [hdetails]
      exact hcited
    rw [hsame, hrefers]

/-- A result that finds something only while the stage entry is known, and rests on these details. -/
structure Grounded (c : Context) (base : Details) (r : RuleResult) : Prop where
  entered : Finds r → ∃ entered, c.stageEnteredAt = some entered
  rests : Rests base r

theorem Grounded.of_quiet {base : Details} {r : RuleResult} (h : ¬ Finds r) : Grounded c base r :=
  ⟨fun hfinds => absurd hfinds h, .of_quiet h⟩

theorem deadlineFields_kept : ∀ key ∈ deadlineFields, key ∉ "noteIds" :: "communicationIds" :: clockDetails := by
  decide

/-! ## Rules of the stage deadline -/

theorem stageDuration_grounded (c : Context) : Grounded c c.deadlineDetails (stageDuration c) := by
  have hquiet : ∀ {status : ResultStatus} (message : String) (extra : ResultExtra), status ≠ .fail →
      status ≠ .review → Grounded c c.deadlineDetails (c.add .stageDuration status message extra) :=
    fun message extra hfail hreview => .of_quiet (c.add_quiet _ message extra hfail hreview)
  unfold stageDuration
  by_cases hdelegated : c.delegated = true
  · rw [if_pos hdelegated]
    exact hquiet _ _ (by decide) (by decide)
  by_cases hunlimited : c.unlimited = true
  · rw [if_neg hdelegated, if_pos hunlimited]
    exact hquiet _ _ (by decide) (by decide)
  rw [if_neg hdelegated, if_neg hunlimited]
  rcases hdeadline : c.limit.deadline with _ | deadline
  · exact hquiet _ _ (by decide) (by decide)
  rcases hentered : c.stageEnteredAt with _ | entered
  · exact hquiet _ _ (by decide) (by decide)
  have hfinds : ∀ {status : ResultStatus} {message : String} {details : Details} (cited : Option Json × Option Json),
      details = c.deadlineDetails ++ [("elapsedHours", Json.num ((c.observedAt - entered : ℤ) / (hour : ℚ)))] ++
        citedFields cited → (status = .fail → cited = (none, none)) →
      Grounded c c.deadlineDetails (c.add .stageDuration status message { details := some details }) := by
    rintro status message details cited rfl hfail
    refine ⟨fun _ => ⟨entered, hentered⟩, rests_add c.deadlineDetails_fields deadlineFields_kept ?_ rfl hfail⟩
    exact fun field hfield => by simp [List.mem_singleton.1 hfield, clockDetails]
  simp only []
  split_ifs
  · exact hquiet _ _ (by decide) (by decide)
  · exact hfinds (none, none) (List.append_nil _).symm fun _ => rfl
  · exact hquiet _ _ (by decide) (by decide)
  · exact hquiet _ _ (by decide) (by decide)
  · exact hfinds (none, none) (List.append_nil _).symm fun _ => rfl
  · exact hfinds (some _, none) rfl nofun

theorem Grounded.same {base base' : Details} {r r' : RuleResult} (hkey : r.key = r'.key) (h : Grounded c base r)
    (h' : Grounded (c.at time) base' r')
    (hbase : (c.at time).stageEnteredAt = c.stageEnteredAt → base' = base) : SameFacts r r' := by
  refine .of_rests hkey h.rests h'.rests fun hfinds hfinds' => hbase ?_
  obtain ⟨entered, hentered⟩ := h.entered hfinds
  obtain ⟨entered', hentered'⟩ := h'.entered hfinds'
  exact Context.stageEnteredAt_eq hentered hentered'

theorem stageDuration_facts (c : Context) (time : ℤ) : SameFacts (stageDuration c) (stageDuration (c.at time)) :=
  (stageDuration_grounded c).same ((stageDuration_key c).trans (stageDuration_key _).symm)
    (stageDuration_grounded (c.at time)) Context.deadlineDetails_eq

/-- The fields of a task. -/
def taskFields : List String := ["taskId", "taskText", "dueAt", "actualTypeId", "allowedTypeIds"]

theorem taskDetails_fields (task : Task) : ∀ field ∈ taskDetails task, field.1 ∈ taskFields := by
  intro field hfield
  simp only [taskDetails, List.mem_cons, List.not_mem_nil, or_false] at hfield
  rcases hfield with rfl | rfl | rfl <;> simp [taskFields]

theorem taskStageDeadline_grounded (c : Context) (task : Task) :
    Grounded c (taskDetails task ++ c.deadlineDetails) (taskStageDeadline c task) := by
  have hquiet : ∀ {status : ResultStatus} (message : String) (extra : ResultExtra), status ≠ .fail →
      status ≠ .review →
        Grounded c (taskDetails task ++ c.deadlineDetails) (c.add .taskStageDeadline status message extra) :=
    fun message extra hfail hreview => .of_quiet (c.add_quiet _ message extra hfail hreview)
  unfold taskStageDeadline
  simp only []
  by_cases hunlimited : c.unlimited = true
  · rw [if_pos hunlimited]
    exact hquiet _ _ (by decide) (by decide)
  rw [if_neg hunlimited]
  rcases hdeadline : c.limit.deadline with _ | deadline
  · exact hquiet _ _ (by decide) (by decide)
  rcases hdue : task.dueAt with _ | dueAt
  · exact hquiet _ _ (by decide) (by decide)
  have hfields : ∀ field ∈ taskDetails task ++ c.deadlineDetails, field.1 ∈ taskFields ++ deadlineFields := by
    intro field hfield
    rcases List.mem_append.1 hfield with htask | hdetails
    · exact List.mem_append_left _ (taskDetails_fields task field htask)
    · exact List.mem_append_right _ (c.deadlineDetails_fields field hdetails)
  have hfinds : ∀ {status : ResultStatus} {message : String} {details : Details} (cited : Option Json × Option Json),
      details = taskDetails task ++ c.deadlineDetails ++ [] ++ citedFields cited →
      (status = .fail → cited = (none, none)) → Grounded c (taskDetails task ++ c.deadlineDetails)
        (c.add .taskStageDeadline status message { subjectId := some (taskSubject task), details := some details }) := by
    rintro status message details cited rfl hfail
    exact ⟨fun _ => stageDeadline_entry hdeadline,
      rests_add hfields (by decide) (fun _ hfield => absurd hfield List.not_mem_nil) rfl hfail⟩
  dsimp only
  split_ifs
  · exact hquiet _ _ (by decide) (by decide)
  · exact hfinds (none, none) (by simp [citedFields]) fun _ => rfl
  · exact hquiet _ _ (by decide) (by decide)
  · exact hfinds (none, none) (by simp [citedFields]) fun _ => rfl
  · exact hfinds (some _, none) (by rw [List.append_nil]; rfl) nofun

theorem taskStageDeadline_facts (c : Context) (time : ℤ) (task : Task) :
    SameFacts (taskStageDeadline c task) (taskStageDeadline (c.at time) task) := by
  refine (taskStageDeadline_grounded c task).same
    ((taskStageDeadline_key c task).trans (taskStageDeadline_key _ task).symm)
    (taskStageDeadline_grounded (c.at time) task) fun hentered => ?_
  rw [Context.deadlineDetails_eq hentered]

/-! ## The price request -/

theorem set_of_not_mem {key : String} {value : Json} {details : Details} {fields : List String}
    (h : ∀ field ∈ details, field.1 ∈ fields) (hkey : key ∉ fields) :
    JsMap.set key value details = details ++ [(key, value)] := by
  induction details with
  | nil => rfl
  | cons field details ih =>
    have hne : field.1 ≠ key := fun heq => hkey (heq ▸ h field List.mem_cons_self)
    rw [JsMap.set, if_neg hne, ih fun f hf => h f (List.mem_cons_of_mem field hf), List.cons_append]

/-- Details spread into details have the fields of both. -/
theorem spread_fields {details more : Details} {fields : List String} (h : ∀ field ∈ details, field.1 ∈ fields)
    (hmore : ∀ field ∈ more, field.1 ∈ fields) : ∀ field ∈ Details.spread details more, field.1 ∈ fields := by
  unfold Details.spread
  induction more generalizing details with
  | nil => exact h
  | cons first more ih =>
    refine ih (fun field hfield => ?_) fun field hfield => hmore field (List.mem_cons_of_mem first hfield)
    rcases JsMap.mem_of_mem_set hfield with rfl | hold
    · exact hmore first List.mem_cons_self
    · exact h field hold

/-- The details of a price request without the hours that have passed. -/
def priceBase (c : Context) : Details :=
  Details.spread c.deadlineDetails
    ([("deadlineMode", .str (priceLimit c).mode.code),
      ("maximumDueAt", .ofText ((priceLimit c).deadline.map isoString))] ++
      (if hasConfiguredLimit c then [] else [("maxDurationHours", .num 24)]))

theorem priceBase_fields (c : Context) : ∀ field ∈ priceBase c, field.1 ∈ deadlineFields := by
  refine spread_fields c.deadlineDetails_fields fun field hfield => ?_
  rcases List.mem_append.1 hfield with hlimit | hhours
  · simp only [List.mem_cons, List.not_mem_nil, or_false] at hlimit
    rcases hlimit with rfl | rfl <;> simp [deadlineFields]
  · split_ifs at hhours
    · exact absurd hhours List.not_mem_nil
    · rw [List.mem_singleton.1 hhours]
      simp [deadlineFields]

theorem priceDetails_eq (c : Context) : ∃ elapsed, priceDetails c = priceBase c ++ [("elapsedHours", elapsed)] := by
  unfold priceDetails Details.spread
  rw [List.foldl_append]
  have hkey : "elapsedHours" ∉ deadlineFields := by decide
  exact ⟨_, set_of_not_mem (priceBase_fields c) hkey⟩

theorem priceLimit_eq (h : (c.at time).stageEnteredAt = c.stageEnteredAt) : priceLimit (c.at time) = priceLimit c := by
  unfold priceLimit
  rw [Context.limit_eq h, h]
  rfl

theorem priceBase_eq (h : (c.at time).stageEnteredAt = c.stageEnteredAt) : priceBase (c.at time) = priceBase c := by
  unfold priceBase
  rw [Context.deadlineDetails_eq h, priceLimit_eq h]
  rfl

theorem priceRequestedDuration_grounded (c : Context) : Grounded c (priceBase c) (priceRequestedDuration c) := by
  have hquiet : ∀ {status : ResultStatus} (message : String) (extra : ResultExtra), status ≠ .fail →
      status ≠ .review → Grounded c (priceBase c) (c.add .priceRequestedDuration status message extra) :=
    fun message extra hfail hreview => .of_quiet (c.add_quiet _ message extra hfail hreview)
  unfold priceRequestedDuration
  by_cases hsales : c.sales = true
  · rw [if_pos hsales]
    exact hquiet _ _ (by decide) (by decide)
  by_cases habsent : c.input.scope.priceRequestedStageId = .absent
  · rw [if_neg hsales, if_pos habsent]
    exact hquiet _ _ (by decide) (by decide)
  rw [if_neg hsales, if_neg habsent]
  rcases hchosen : c.input.scope.priceRequestedStageId.chosen with _ | stageId
  · exact hquiet _ _ (by decide) (by decide)
  dsimp only
  by_cases hstage : c.input.deal.stageId ≠ stageId
  · rw [if_pos hstage]
    exact hquiet _ _ (by decide) (by decide)
  by_cases hunlimited : (priceLimit c).mode = .unlimited ∧ (priceLimit c).reason = none
  · rw [if_neg hstage, if_pos hunlimited]
    exact hquiet _ _ (by decide) (by decide)
  rw [if_neg hstage, if_neg hunlimited]
  rcases hdeadline : (priceLimit c).deadline with _ | deadline
  · exact hquiet _ _ (by decide) (by decide)
  rcases hentered : c.stageEnteredAt with _ | entered
  · exact hquiet _ _ (by decide) (by decide)
  obtain ⟨elapsed, hdetails⟩ := priceDetails_eq c
  have hfinds : ∀ {status : ResultStatus} {message : String} {details : Details} (cited : Option Json × Option Json),
      details = priceBase c ++ [("elapsedHours", elapsed)] ++ citedFields cited →
      (status = .fail → cited = (none, none)) →
      Grounded c (priceBase c) (c.add .priceRequestedDuration status message { details := some details }) := by
    rintro status message details cited rfl hfail
    refine ⟨fun _ => ⟨entered, hentered⟩, rests_add (priceBase_fields c) deadlineFields_kept ?_ rfl hfail⟩
    exact fun field hfield => by simp [List.mem_singleton.1 hfield, clockDetails]
  dsimp only
  unfold priceOverdue
  dsimp only
  rw [hdetails]
  split_ifs
  · exact hquiet _ _ (by decide) (by decide)
  · exact hfinds (none, none) (List.append_nil _).symm fun _ => rfl
  · exact hquiet _ _ (by decide) (by decide)
  · exact hfinds (some _, some _) (List.append_assoc _ _ _) nofun
  · exact hquiet _ _ (by decide) (by decide)
  · exact hfinds (none, none) (List.append_nil _).symm fun _ => rfl

theorem priceRequestedDuration_facts (c : Context) (time : ℤ) :
    SameFacts (priceRequestedDuration c) (priceRequestedDuration (c.at time)) :=
  (priceRequestedDuration_grounded c).same ((priceRequestedDuration_key c).trans (priceRequestedDuration_key _).symm)
    (priceRequestedDuration_grounded (c.at time)) priceBase_eq

/-! ## Rules of the deal -/

theorem currentNotes_entered {managerOnly : Bool} (h : (currentNotes c managerOnly).notes ≠ []) :
    ∃ entered, c.stageEnteredAt = some entered := by
  rcases hentered : c.stageEnteredAt with _ | entered
  · refine absurd ?_ h
    unfold currentNotes
    rw [hentered]
    exact List.filter_eq_nil_iff.2 fun _ _ => Bool.false_ne_true
  · exact ⟨entered, rfl⟩

/-- The stage entry that a question about the presentation shows after the notes. -/
def entryField (c : Context) : Details := [("stageEnteredAt", .ofText (c.stageEnteredAt.map isoString))]

/-- What the rule of the presentation can find. -/
theorem proposalNote_cases (c : Context) :
    ¬ Finds (proposalNote c) ∨ (∃ message, proposalNote c = c.add .proposalNote .fail message) ∨
      ∃ message entered notes, c.stageEnteredAt = some entered ∧ proposalNote c =
        c.add .proposalNote .review message { details := some (noteIds notes ++ entryField c) } := by
  have hquiet : ∀ {status : ResultStatus} (message : String) (extra : ResultExtra), status ≠ .fail →
      status ≠ .review → ¬ Finds (c.add .proposalNote status message extra) :=
    fun message extra hfail hreview => c.add_quiet _ message extra hfail hreview
  unfold proposalNote
  by_cases habsent : c.input.scope.preparedProposalStageId = .absent
  · rw [if_pos habsent]
    exact Or.inl (hquiet _ _ (by decide) (by decide))
  rw [if_neg habsent]
  rcases c.input.scope.preparedProposalStageId.chosen with _ | stageId
  · exact Or.inl (hquiet _ _ (by decide) (by decide))
  dsimp only
  split_ifs with _ _ _ _ _ hnotes
  · exact Or.inl (hquiet _ _ (by decide) (by decide))
  · exact Or.inl (hquiet _ _ (by decide) (by decide))
  · exact Or.inl (hquiet _ _ (by decide) (by decide))
  · exact Or.inr (Or.inl ⟨_, rfl⟩)
  · exact Or.inl (hquiet _ _ (by decide) (by decide))
  · exact Or.inr (Or.inl ⟨_, rfl⟩)
  · obtain ⟨entered, hentered⟩ := currentNotes_entered hnotes
    exact Or.inr (Or.inr ⟨_, entered, _, hentered, rfl⟩)

theorem proposalNote_fail_assessed (h : (proposalNote c).status = .fail) : (proposalNote c).assessed = [] := by
  rcases proposalNote_cases c with hquiet | ⟨message, heq⟩ | ⟨message, entered, notes, -, heq⟩
  · exact absurd (Or.inl h) hquiet
  · rw [heq]
    rfl
  · rw [heq] at h
    cases h

theorem proposalNote_review_assessed (h : (proposalNote c).status = .review) :
    ∃ entered, c.stageEnteredAt = some entered ∧
      (proposalNote c).assessed = citedFields (proposalNote c).cited ++ entryField c := by
  rcases proposalNote_cases c with hquiet | ⟨message, heq⟩ | ⟨message, entered, notes, hentered, heq⟩
  · exact absurd (Or.inr h) hquiet
  · rw [heq] at h
    cases h
  · refine ⟨entered, hentered, ?_⟩
    rw [heq]
    rfl

theorem proposalNote_facts (c : Context) (time : ℤ) : SameFacts (proposalNote c) (proposalNote (c.at time)) := by
  refine ⟨(proposalNote_key c).trans (proposalNote_key _).symm, ?_⟩
  rintro (⟨hfail, hfail'⟩ | ⟨hreview, hreview', hcited⟩)
  · rw [proposalNote_fail_assessed hfail, proposalNote_fail_assessed hfail']
  · obtain ⟨entered, hentered, hassessed⟩ := proposalNote_review_assessed hreview
    obtain ⟨entered', hentered', hassessed'⟩ := proposalNote_review_assessed hreview'
    have hsame := Context.stageEnteredAt_eq hentered hentered'
    rw [hassessed, hassessed', hcited, entryField, entryField, hsame]

/-! ## Rules without questions -/

/-- What a violation of the intake stage is assessed on. -/
def intakeBase (c : Context) : Details :=
  if !c.sales then [] else [("createdAt", .ofText (c.createdAt.map isoString)), ("cutoffLocalTime", .str "19:00"),
    ("timeZone", .str c.input.config.timeZone)]

theorem knownCreation_some {createdAt : ℤ} (h : (c.createdAt.filter fun createdAt => createdAt ≤ c.observedAt) =
    some createdAt) : c.createdAt = some createdAt := (Option.filter_eq_some_iff.1 h).1

theorem intakeStage_rests (c : Context) : Rests (intakeBase c) (intakeStage c) := by
  have hquiet : ∀ {status : ResultStatus} (message : String) (extra : ResultExtra), status ≠ .fail →
      status ≠ .review → Rests (intakeBase c) (c.add .intakeStage status message extra) :=
    fun message extra hfail hreview => .of_quiet (c.add_quiet _ message extra hfail hreview)
  unfold intakeStage
  by_cases habsent : (if c.sales then c.input.scope.assignedStageId else c.input.scope.newClientStageId) = .absent
  · simp only [habsent, if_true]
    exact hquiet _ _ (by decide) (by decide)
  simp only [habsent, if_false]
  rcases (if c.sales = true then c.input.scope.assignedStageId else c.input.scope.newClientStageId).chosen
    with _ | stageId
  · exact hquiet _ _ (by decide) (by decide)
  dsimp only
  by_cases hstage : c.input.deal.stageId ≠ stageId
  · rw [if_pos hstage]
    exact hquiet _ _ (by decide) (by decide)
  by_cases hbefore : c.beforeDayEnd = true
  · rw [if_neg hstage, if_pos hbefore]
    exact hquiet _ _ (by decide) (by decide)
  rw [if_neg hstage, if_neg hbefore]
  cases hsales : c.sales with
  | false =>
    refine ⟨fun _ => ?_, nofun⟩
    rw [intakeBase, hsales]
    rfl
  | true =>
    simp only [Bool.not_true, Bool.false_eq_true, if_false]
    rcases hcreated : c.createdAt.filter fun createdAt => createdAt ≤ c.observedAt with _ | createdAt
    · exact hquiet _ _ (by decide) (by decide)
    dsimp only
    by_cases hcutoff : civilTime createdAt c.formatter < c.localDayStart + 19 * hour
    · refine ⟨fun _ => ?_, fun hreview => ?_⟩
      · rw [intakeBase, hsales, knownCreation_some hcreated]
        simp [hcutoff, RuleResult.assessed, Context.add, ruleResult, clockDetails, Json.ofText]
      · simp [hcutoff, Context.add, ruleResult] at hreview
    · rw [if_neg hcutoff]
      exact hquiet _ _ (by decide) (by decide)

theorem intakeStage_facts (c : Context) (time : ℤ) : SameFacts (intakeStage c) (intakeStage (c.at time)) :=
  .of_rests ((intakeStage_key c).trans (intakeStage_key _).symm) (intakeStage_rests c) (intakeStage_rests (c.at time))
    fun _ _ => rfl

/-- What the age of a deal is assessed on. -/
def ageBase (c : Context) : Details :=
  [("createdAt", .ofText (c.createdAt.map isoString)), ("agePolicy", .str c.input.config.maxDealAge.code),
    ("timeZone", .str c.input.config.timeZone)]

theorem dealAge_rests (c : Context) : Rests (ageBase c) (dealAge c) := by
  have hquiet : ∀ {status : ResultStatus} (message : String) (extra : ResultExtra), status ≠ .fail →
      status ≠ .review → Rests (ageBase c) (c.add .dealAge status message extra) :=
    fun message extra hfail hreview => .of_quiet (c.add_quiet _ message extra hfail hreview)
  unfold dealAge
  dsimp only
  split_ifs with hunchecked hbase
  · exact hquiet _ _ (by decide) (by decide)
  · exact hquiet _ _ (by decide) (by decide)
  rcases hcreated : c.createdAt.filter fun createdAt => createdAt ≤ c.observedAt with _ | createdAt
  · exact hquiet _ _ (by decide) (by decide)
  refine ⟨fun _ => ?_, fun hreview => ?_⟩
  · rw [ageBase, knownCreation_some hcreated]
    rfl
  · dsimp only [Context.add, ruleResult] at hreview
    split_ifs at hreview

theorem dealAge_facts (c : Context) (time : ℤ) : SameFacts (dealAge c) (dealAge (c.at time)) :=
  .of_rests ((dealAge_key c).trans (dealAge_key _).symm) (dealAge_rests c) (dealAge_rests (c.at time)) fun _ _ => rfl

theorem taskDeadline_rests (c : Context) (task : Task) : Rests (taskDetails task) (taskDeadline c task) := by
  have hquiet : ∀ {status : ResultStatus} (message : String) (extra : ResultExtra), status ≠ .fail →
      status ≠ .review → Rests (taskDetails task) (c.add .taskDeadline status message extra) :=
    fun message extra hfail hreview => .of_quiet (c.add_quiet _ message extra hfail hreview)
  unfold taskDeadline
  rcases task.dueAt with _ | dueAt
  · exact hquiet _ _ (by decide) (by decide)
  dsimp only
  have hclock : ∀ field ∈ [("dueToday", Json.bool (civilTime dueAt c.formatter / day * day = c.localDayStart)),
      ("overdue", .bool (dueAt < c.observedAt))], field.1 ∈ clockDetails := by
    intro field hfield
    simp only [List.mem_cons, List.not_mem_nil, or_false] at hfield
    rcases hfield with rfl | rfl <;> simp [clockDetails]
  split_ifs with hwaiting
  · exact hquiet _ _ (by decide) (by decide)
  all_goals
    exact rests_add (taskDetails_fields task) (by decide) hclock
      (show _ = some (_ ++ _ ++ citedFields (none, none)) by simp [citedFields]) fun _ => rfl

theorem taskDeadline_facts (c : Context) (time : ℤ) (task : Task) :
    SameFacts (taskDeadline c task) (taskDeadline (c.at time) task) :=
  .of_rests ((taskDeadline_key c task).trans (taskDeadline_key _ task).symm) (taskDeadline_rests c task)
    (taskDeadline_rests (c.at time) task) fun _ _ => rfl

/-! ## The whole evaluation -/

theorem incompleteTasks_facts (c : Context) (time : ℤ) :
    List.Forall₂ SameFacts (incompleteTasks c) (incompleteTasks (c.at time)) := by
  unfold incompleteTasks
  rw [List.forall₂_map_left_iff, List.forall₂_map_right_iff]
  refine List.forall₂_same.2 fun code _ => .of_quiet ?_ ?_
  · split_ifs <;> rfl
  · split_ifs
    · exact ⟨nofun, nofun⟩
    · exact ⟨nofun, nofun⟩

theorem contextResults_facts (c : Context) (time : ℤ) :
    List.Forall₂ SameFacts (contextResults c) (contextResults (c.at time)) := by
  have htasks : List.Forall₂ SameFacts (taskSection c) (taskSection (c.at time)) := by
    refine forall₂_taskSection rfl rfl (fun _ => incompleteTasks_facts c time)
      (SameFacts.refl (taskCount c)) ?_ fun _ task _ => ?_
    · exact forall₂_same SameFacts.refl (noTasks c)
    · exact .cons (taskDeadline_facts c time task)
        (.cons (SameFacts.refl (taskType c task)) (.cons (SameFacts.refl (taskTextResult c task))
          (.cons (taskStageDeadline_facts c time task) .nil)))
  refine List.rel_append (List.Forall₂.cons (intakeStage_facts c time) htasks) ?_
  exact .cons (stageDuration_facts c time) (.cons (proposalNote_facts c time)
    (.cons (dealAge_facts c time) (.cons (SameFacts.refl (offerBudget c))
      (.cons (SameFacts.refl (proposalFile c)) (.cons (priceRequestedDuration_facts c time) .nil)))))

section Evaluation

variable {dateTimeFormat : String → Option Formatter} {input : RuleInput} {t₁ t₂ : Option ℤ}

/-- An evaluation that finds something has a known time. -/
theorem observedAt_of_finds {r : RuleResult} (hr : r ∈ evaluateCrmControlDeal dateTimeFormat input)
    (h : Finds r) : ∃ observedAt, input.observedAt = some observedAt := by
  rcases hat : input.observedAt with _ | observedAt
  · exfalso
    unfold evaluateCrmControlDeal at hr
    rw [hat] at hr
    obtain ⟨code, -, rfl⟩ := List.mem_map.1 hr
    exact h.elim nofun nofun
  · exact ⟨observedAt, rfl⟩

/-- The same rule and subject at two times. -/
theorem evaluate_facts {r r' : RuleResult}
    (hr : r ∈ evaluateCrmControlDeal dateTimeFormat { input with observedAt := t₁ })
    (hr' : r' ∈ evaluateCrmControlDeal dateTimeFormat { input with observedAt := t₂ }) (hkey : r'.key = r.key)
    (hsame : SameFinding r r') : r.assessed = r'.assessed := by
  obtain ⟨u₁, rfl⟩ : ∃ u, t₁ = some u := observedAt_of_finds hr hsame.finds.1
  obtain ⟨u₂, rfl⟩ : ∃ u, t₂ = some u := observedAt_of_finds hr' hsame.finds.2
  have hall : List.Forall₂ SameFacts (evaluateCrmControlDeal dateTimeFormat { input with observedAt := some u₁ })
      (evaluateCrmControlDeal dateTimeFormat { input with observedAt := some u₂ }) := by
    refine forall₂_evaluate SameFacts.refl dateTimeFormat rfl rfl rfl rfl rfl ?_
    intro observedAt observedAt' formatter hat hat' _ _ _
    obtain rfl : u₁ = observedAt := Option.some.inj hat
    obtain rfl : u₂ = observedAt' := Option.some.inj hat'
    exact contextResults_facts { input := input.at u₁, observedAt := u₁, formatter } u₂
  exact (rel_of_key (fun _ _ hR => hR.1) hall (nodup_evaluate dateTimeFormat _) hr hr' hkey).2 hsame

/-- **The clock and the assessment.** A rule that finds the same of a subject at two times is assessed on the same
facts, and a case that was assessed at the first time is still the previous case at the second. -/
theorem assessment_ignores_clock {r r' : RuleResult}
    (hr : r ∈ evaluateCrmControlDeal dateTimeFormat { input with observedAt := t₁ })
    (hr' : r' ∈ evaluateCrmControlDeal dateTimeFormat { input with observedAt := t₂ }) (hkey : r'.key = r.key)
    (hsame : SameFinding r r') :
    assessmentFacts { input with observedAt := t₂ } r' = assessmentFacts { input with observedAt := t₁ } r ∧
      ∀ (env : Env) (db : Db) (c : CaseRow), db.findActive (caseActiveKey input.deal.id r') = some c →
        c.assessmentHash = assessmentHash env { input with observedAt := t₁ } r →
          previousCase env { input with observedAt := t₂ } r' db = (db, some c) := by
  have hfacts : assessmentFacts { input with observedAt := t₂ } r' =
      assessmentFacts { input with observedAt := t₁ } r :=
    assessmentFacts_eq (congrArg Prod.fst hkey).symm (evaluate_facts hr hr' hkey hsame)
  refine ⟨hfacts, fun env db c hactive hhash => ?_⟩
  have hunchanged : factsChanged env { input with observedAt := t₂ } r' c = false := by
    unfold factsChanged assessmentHash
    rw [hfacts, hhash]
    simp [assessmentHash]
  unfold previousCase
  rw [hactive]
  simp only [hunchanged, Bool.false_eq_true, if_false]

end Evaluation

section Sample

/-- A deal on a stage with a limit of 24 hours, entered at the start of 1970. -/
def overdueInput : RuleInput where
  deal := ⟨"1", "1", "Сделка", some 0, "p", "s", none⟩
  tasks := []
  notes := []
  communications := []
  stageEnteredAt := some 0
  observedAt := none
  sourceCompleteness := ⟨true, true, true, true, true⟩
  config := { timeZone := "UTC" }
  scope := { department := .sales, pipelineId := "p", stageRules := [("s", { maxDurationHours := some 24 })] }

/-- The context of the deal after so many days. -/
def overdueContext (days : ℤ) : Context :=
  { input := overdueInput.at (days * day), observedAt := days * day, formatter := utcFormatter }

/-- The stage is over its limit after two days and after three, with the same facts. -/
theorem assessment_ignores_clock_sample :
    assessmentFacts (overdueInput.at (3 * day)) (stageDuration (overdueContext 3)) =
      assessmentFacts (overdueInput.at (2 * day)) (stageDuration (overdueContext 2)) := by
  have hmem : ∀ days, stageDuration (overdueContext days) ∈
      evaluateCrmControlDeal (fun _ => some utcFormatter) (overdueInput.at (days * day)) := by
    intro days
    rw [@evaluate_at _ overdueInput utcFormatter rfl rfl rfl]
    show stageDuration (overdueContext days) ∈ contextResults (overdueContext days)
    simp [contextResults]
  have hkey : (stageDuration (overdueContext 3)).key = (stageDuration (overdueContext 2)).key :=
    (stageDuration_key _).trans (stageDuration_key _).symm
  exact (assessment_ignores_clock (hmem 2) (hmem 3) hkey
    (Or.inl ⟨by decide +kernel, by decide +kernel⟩)).1

end Sample

end AmoAnalytics.CrmControl
