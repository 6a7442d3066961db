import AmoAnalytics.CrmControl.SemanticFindings
import AmoAnalytics.CrmControl.AnalysisProjection
import AmoAnalytics.CrmControl.ReadyJobs

/-!
# The proof that a reviewer reads

`crm-control-analysis-proof.ts` validates the stored response once more and shows the findings with their quotations.
The verdict of a job that is shown was reached by `finish` from the same request and the same response, so the reader
finds what `finish` found: at least one finding, and no quotation that is not in a source.
-/

namespace AmoAnalytics.CrmControl.Semantic

open JsText

/-! ## The reader -/

def factName : Fact → String
  | .action => "Следующее действие"
  | .stageRelevance => "Соответствие этапу"
  | .transferReason => "Причина переноса презентации"
  | .presentationDate => "Дата презентации"
  | .managerNote => "Примечание менеджера"
  | .customerAgreement => "Договорённость клиента"
  | .agreedDeadline => "Согласованный срок"
  | .priceDelayReason => "Причина задержки цены"

def sourceName : SourceKind → String
  | .task => "Задача"
  | .managerNote => "Примечание"
  | .customerMessage => "Сообщение клиента"
  | .supplierMessage => "Сообщение поставщика"
  | .message => "Сообщение"
  | .callTranscript => "Расшифровка звонка"

structure ProofEvidence where
  sourceId : JsString
  sourceHash : JsString
  label : String
  createdAt : Option JsString
  quote : JsString
  text : JsString

structure ProofFinding where
  fact : Fact
  label : String
  state : JsValue
  date : Option SemanticDate
  evidence : List ProofEvidence

structure AnalysisProof where
  analysis : Option AnalysisSummary
  findings : List ProofFinding

/-- `sources.get(id)`: of sources with one id the last one is in the map. -/
def sourceOf (request : Request) (id : JsString) : Option Source :=
  request.sources.reverse.find? fun source => source.id = id

/-- `none` when the source is not in the map. -/
def shownCitation (request : Request) (citation : Citation) : Option ProofEvidence :=
  (sourceOf request citation.sourceId).map fun source =>
    { sourceId := source.id, sourceHash := source.sourceHash, label := sourceName source.kind
      createdAt := source.createdAt, quote := citation.quote, text := source.text }

def shownFinding (request : Request) (finding : Finding) : Option ProofFinding :=
  (finding.evidence.mapM (shownCitation request)).map fun evidence =>
    { fact := finding.fact, label := factName finding.fact, state := finding.state, date := finding.date, evidence }

section Reader

variable (rt : Runtime) (view : Json → Request) (value : Json → JsValue)

/-- `rawResponse.response`. -/
def Outcome.response : CrmControl.Outcome → JsValue
  | .ready _ _ _ _ response => value response
  | .error _ _ => .undefined

/-- The verdict needs no more than the missing note. -/
def missingNote (request : Request) (validation : Validation) (result : Option ResultStatus) : Option Bool :=
  if validation.status = .unknown ∧ result = some .fail ∧ request.check = .deadlineAgreement then
    (assessCrmControlSemantic rt request validation "stage_duration").map fun assessment =>
      decide (assessment.status = .fail)
  else some false

/-- `none` when an exception is thrown. A stored request is read as the typed one. -/
def crmControlAnalysisProof (options : Option AnalysisOptions) (job : AnalysisJob) (snapshotHash : String)
    (attempt : Option Attempt) : Option AnalysisProof :=
  let summary := crmControlAnalysisProjection options [job]
  match attempt.bind (·.rawResponse) with
  | none => some ⟨summary, []⟩
  | some outcome =>
    if (summary.bind (·.outcome)).isNone ∨ job.snapshotHash ≠ snapshotHash then some ⟨summary, []⟩
    else do
      let request := view job.request
      let validation ← validateCrmControlSemanticResponse rt request (Outcome.response value outcome)
      let missingNote ← missingNote rt request validation (summary.bind (·.outcome))
      if validation.status ≠ .validated ∧ !missingNote then some ⟨summary, []⟩
      else
        let findings ← (validation.findings.filter fun finding =>
          !missingNote || finding.fact = .managerNote).mapM (shownFinding request)
        some ⟨summary, findings⟩

/-! ## The analyzer of the jobs -/

def ValidationStatus.stored : ValidationStatus → CrmControl.ValidationStatus
  | .validated => .validated
  | .unknown => .unknown
  | .invalid => .invalid

def AssessmentStatus.stored : AssessmentStatus → ResultStatus
  | .pass => .pass
  | .fail => .fail
  | .unknown => .unknown

/-- The analyzer of the jobs is this validation and this policy, as far as they return. -/
structure IsSemantic (analyzer : Analyzer) : Prop where
  validate : ∀ {request response : Json} {validation : Validation},
    validateCrmControlSemanticResponse rt (view request) (value response) = some validation →
      (analyzer.validate request response).status = validation.status.stored
  assess : ∀ {request response : Json} {validation : Validation} {ruleCode : String} {assessment : Assessment},
    validateCrmControlSemanticResponse rt (view request) (value response) = some validation →
      assessCrmControlSemantic rt (view request) validation ruleCode = some assessment →
        analyzer.assess request (analyzer.validate request response) ruleCode =
          ⟨assessment.status.stored, assessment.message, policyVersion⟩

/-- `finish` was not left by an exception. -/
def Returns : Answer := fun job outcome rule =>
  match outcome with
  | .ready _ _ _ _ response =>
    ∃ validation, validateCrmControlSemanticResponse rt (view job.request) (value response) = some validation ∧
      (validation.status ≠ .invalid → identityValid job outcome = true → ∀ ruleCode ∈ rule,
        (assessCrmControlSemantic rt (view job.request) validation ruleCode).isSome = true)
  | .error _ _ => True

end Reader

variable {rt : Runtime} {view : Json → Request} {value : Json → JsValue} {analyzer : Analyzer} {request : Request}

/-! ## What is shown -/

/-- The quotation is in the text of a source of the request. -/
def Shown (request : Request) (evidence : ProofEvidence) : Prop :=
  ∃ source ∈ request.sources, evidence.sourceId = source.id ∧ evidence.sourceHash = source.sourceHash ∧
    evidence.createdAt = source.createdAt ∧ evidence.text = source.text ∧ includes source.text evidence.quote = true

/-- There is something to review, and all of it can be checked against the sources. -/
structure Reviewable (request : Request) (proof : AnalysisProof) : Prop where
  findings : proof.findings ≠ []
  quotes : ∀ finding ∈ proof.findings, ∀ evidence ∈ finding.evidence, Shown request evidence
  present : ∀ finding ∈ proof.findings, finding.state.isText (js "present") = true → finding.evidence ≠ []

theorem sourceOf_eq (hids : (request.sources.map (·.id)).Nodup) {source : Source}
    (hsource : source ∈ request.sources) : sourceOf request source.id = some source := by
  rcases hfind : sourceOf request source.id with _ | found
  · have hnone := List.find?_eq_none.1 hfind source (List.mem_reverse.2 hsource)
    exact absurd (decide_eq_true rfl) hnone
  · have hid : found.id = source.id := by simpa using List.find?_some hfind
    rw [List.inj_on_of_nodup_map hids (List.mem_reverse.1 (List.mem_of_find?_eq_some hfind)) hsource hid]

theorem shownCitation_of_quotes (hids : (request.sources.map (·.id)).Nodup) {citation : Citation}
    (h : Quotes request citation) : ∃ evidence, shownCitation request citation = some evidence ∧
      Shown request evidence := by
  obtain ⟨source, hsource, hid, -, hquote⟩ := h
  unfold shownCitation
  rw [← hid, sourceOf_eq hids hsource]
  exact ⟨_, rfl, source, hsource, rfl, rfl, rfl, rfl, hquote⟩

/-- A function that is defined on every member is defined on the list. -/
theorem mapM_of_forall {α β : Type} {f : α → Option β} {P : α → β → Prop} :
    ∀ {l : List α}, (∀ a ∈ l, ∃ b, f a = some b ∧ P a b) → ∃ bs, l.mapM f = some bs ∧ List.Forall₂ P l bs
  | [], _ => ⟨[], rfl, .nil⟩
  | a :: l, h => by
    obtain ⟨b, hb, hP⟩ := h a List.mem_cons_self
    obtain ⟨bs, hbs, hall⟩ := mapM_of_forall fun a ha => h a (List.mem_cons_of_mem _ ha)
    refine ⟨b :: bs, ?_, .cons hP hall⟩
    rw [List.mapM_cons, hb, hbs]
    rfl

theorem shownFinding_of_quotes (hids : (request.sources.map (·.id)).Nodup) {finding : Finding}
    (h : ∀ citation ∈ finding.evidence, Quotes request citation) :
    ∃ shown, shownFinding request finding = some shown ∧ shown.state = finding.state ∧
      (shown.evidence = [] → finding.evidence = []) ∧ ∀ evidence ∈ shown.evidence, Shown request evidence := by
  obtain ⟨evidence, hevidence, hall⟩ := mapM_of_forall (P := fun _ => Shown request)
    fun citation hcitation => shownCitation_of_quotes hids (h citation hcitation)
  unfold shownFinding
  rw [hevidence]
  refine ⟨_, rfl, rfl, fun hnil => ?_, fun e he => ?_⟩
  · exact List.eq_nil_of_length_eq_zero (hall.length_eq.trans (congrArg List.length hnil))
  · obtain ⟨n, hn, rfl⟩ := List.getElem_of_mem he
    exact hall.get (hall.length_eq ▸ hn) hn

/-! ## The verdict of a ready job -/

/-- What `finish` found when the verdict is not unknown. -/
theorem verdict_ready {job : AnalysisJob} {outcome : CrmControl.Outcome} {rule : Option String}
    (h : (verdict analyzer job outcome rule).status = .ready) :
    ∃ inputHash model modelSha256 promptVersion response ruleCode,
      outcome = .ready inputHash model modelSha256 promptVersion response ∧ rule = some ruleCode ∧
      identityValid job outcome = true ∧ (analyzer.validate job.request response).status ≠ .invalid ∧
      (verdict analyzer job outcome rule).assessment =
        analyzer.assess job.request (analyzer.validate job.request response) ruleCode := by
  have hstatus : (verdict analyzer job outcome rule).assessment.status ≠ .unknown ∧
      ¬ (verdict analyzer job outcome rule).errorCode.any (· ≠ "") = true := by
    have h : outcomeStatus (verdict analyzer job outcome rule).errorCode
      (verdict analyzer job outcome rule).assessment = .ready := h
    unfold outcomeStatus at h
    split_ifs at h with herror hknown
    exact ⟨hknown, herror⟩
  obtain ⟨hknown, herror⟩ := hstatus
  have hassess : outcomeAssessment analyzer job (outcome.validate analyzer job)
      (outcomeError job outcome (outcome.validate analyzer job)) rule =
        (verdict analyzer job outcome rule).assessment := rfl
  rw [← hassess] at hknown ⊢
  unfold outcomeAssessment at hknown ⊢
  split at hknown
  · rename_i validation ruleCode hvalidate hnone
    cases outcome with
    | error => exact nomatch hvalidate
    | ready inputHash model modelSha256 promptVersion response =>
      obtain rfl := Option.some.inj hvalidate
      refine ⟨inputHash, model, modelSha256, promptVersion, response, ruleCode, rfl, rfl, ?_, ?_, ?_⟩
      · by_contra hidentity
        rw [outcomeError, if_pos (by simpa using hidentity)] at hnone
        exact nomatch hnone
      · intro hinvalid
        unfold outcomeError at hnone
        split_ifs at hnone with hidentity hinvalid'
        exact hinvalid' (by simp [Outcome.validate, hinvalid])
      · rfl
  · exact absurd rfl hknown

/-- A verdict of the policy on a response that is not validated is the one of the missing note. -/
theorem assessed_unvalidated {validation : Validation} {ruleCode : String} {assessment : Assessment}
    (h : assessCrmControlSemantic rt request validation ruleCode = some assessment)
    (hknown : assessment.status ≠ .unknown) (hvalidated : validation.status ≠ .validated) :
    assessment.status = .fail ∧ noteAbsent request validation ruleCode = true ∧
      assessCrmControlSemantic rt request validation "stage_duration" = some assessment := by
  have hrule : noteAbsent request validation ruleCode = true →
      noteAbsent request validation "stage_duration" = true := by
    intro hnote
    simp only [noteAbsent, Bool.and_eq_true] at hnote ⊢
    exact ⟨⟨⟨hnote.1.1.1, rfl⟩, hnote.1.2⟩, hnote.2⟩
  unfold assessCrmControlSemantic at h ⊢
  split at h
  · exact absurd (Option.some.inj h ▸ rfl) hknown
  · rename_i hscope
    rw [if_neg hscope]
    dsimp only at h ⊢
    split at h
    · rename_i hnote
      rw [if_pos (hrule hnote)]
      obtain ⟨proof, hproof, h⟩ := Option.bind_eq_some_iff.1 h
      split_ifs at h with hsome
      · obtain rfl := Option.some.inj h
        refine ⟨rfl, hnote, Option.bind_eq_some_iff.2 ⟨proof, hproof, if_pos hsome⟩⟩
      · exact absurd (Option.some.inj h ▸ rfl) hknown
      · exact absurd (Option.some.inj h ▸ rfl) hknown
    · obtain ⟨proof, hproof, h⟩ := Option.bind_eq_some_iff.1 h
      obtain rfl := Option.some.inj hproof
      rw [if_neg (by decide)] at h
      exact absurd (Option.some.inj h ▸ rfl) hknown

/-! ## What the reader finds -/

/-- The findings that are shown, when there is one and a present one has a citation. -/
theorem shown_reviewable {validation : Validation} (hok : ValidationOk rt request validation) {p : Finding → Bool}
    (hsome : ∃ finding ∈ validation.findings, p finding = true)
    (hpresent : ∀ finding ∈ validation.findings, p finding = true →
      finding.state.isText (js "present") = true → finding.evidence ≠ []) (summary : Option AnalysisSummary) :
    ∃ findings, (validation.findings.filter p).mapM (shownFinding request) = some findings ∧
      Reviewable request ⟨summary, findings⟩ := by
  obtain ⟨pre, hpre, hfindings⟩ := hok.read
  obtain ⟨shown, hshown, hall⟩ := mapM_of_forall (f := shownFinding request) (l := validation.findings.filter p)
    (P := fun finding shown => shown.state = finding.state ∧ (shown.evidence = [] → finding.evidence = []) ∧
      ∀ evidence ∈ shown.evidence, Shown request evidence)
    fun finding hfinding => shownFinding_of_quotes (preflight_ids hpre).1
      (hfindings finding (List.mem_of_mem_filter hfinding)).quotes
  have hget : ∀ s ∈ shown, ∃ finding ∈ validation.findings, p finding = true ∧ s.state = finding.state ∧
      (s.evidence = [] → finding.evidence = []) ∧ ∀ evidence ∈ s.evidence, Shown request evidence := by
    intro s hs
    obtain ⟨n, hn, rfl⟩ := List.getElem_of_mem hs
    have hmem := List.getElem_mem (l := validation.findings.filter p) (hall.length_eq ▸ hn)
    exact ⟨_, (List.mem_filter.1 hmem).1, (List.mem_filter.1 hmem).2, hall.get (hall.length_eq ▸ hn) hn⟩
  refine ⟨shown, hshown, fun hnil => ?_, fun s hs => ?_, fun s hs hstate hnone => ?_⟩
  · obtain ⟨finding, hfinding, hp⟩ := hsome
    have hlength : (validation.findings.filter p).length = shown.length := hall.length_eq
    have hshown : shown = [] := hnil
    rw [hshown] at hlength
    have hempty := List.eq_nil_of_length_eq_zero hlength
    exact List.ne_nil_of_mem (List.mem_filter.2 ⟨hfinding, hp⟩) hempty
  · obtain ⟨-, -, -, -, -, hquotes⟩ := hget s hs
    exact hquotes
  · obtain ⟨finding, hfinding, hp, heq, hempty, -⟩ := hget s hs
    exact hpresent finding hfinding hp (heq ▸ hstate) (hempty hnone)

/-- All findings of a validated response. -/
theorem reviewable_of_validated {validation : Validation} (hok : ValidationOk rt request validation)
    (hstatus : validation.status = .validated) (summary : Option AnalysisSummary) :
    ∃ findings, (validation.findings.filter fun finding => !false || finding.fact = .managerNote).mapM
        (shownFinding request) = some findings ∧ Reviewable request ⟨summary, findings⟩ := by
  refine shown_reviewable hok ?_ (fun finding hfinding _ hpresent hnone => ?_) summary
  · obtain ⟨finding, hfinding⟩ := List.exists_mem_of_ne_nil _ hok.findings_ne_nil
    exact ⟨finding, hfinding, rfl⟩
  · obtain ⟨pre, -, hfindings⟩ := hok.read
    have hissue := (hfindings finding hfinding).present hpresent hnone
    have hissues : validation.issues = [] := by
      by_contra hne
      have hunknown := hok.status
      rw [hstatus, if_neg hne] at hunknown
      exact nomatch hunknown
    rw [hissues] at hissue
    exact nomatch hissue

/-- The finding of the missing note. -/
theorem reviewable_of_noteAbsent {validation : Validation} (hok : ValidationOk rt request validation)
    {ruleCode : String} (habsent : noteAbsent request validation ruleCode = true) (summary : Option AnalysisSummary) :
    ∃ findings, (validation.findings.filter fun finding => !true || finding.fact = .managerNote).mapM
        (shownFinding request) = some findings ∧ Reviewable request ⟨summary, findings⟩ := by
  simp only [noteAbsent, Bool.and_eq_true] at habsent
  obtain ⟨note, hnote, hfact, hstate⟩ := hasState_iff.1 habsent.1.2
  refine shown_reviewable hok ⟨note, hnote, by simp [hfact]⟩ (fun finding hfinding hp hpresent => ?_) summary
  -- the facts differ, so it is the finding of absence itself
  obtain rfl : finding = note := List.inj_on_of_nodup_map hok.facts hfinding hnote (by
    rw [hfact]
    simpa using hp)
  simp only [JsValue.isText, decide_eq_true_eq] at hstate hpresent
  rw [hstate] at hpresent
  exact absurd (Option.some.inj hpresent) (by decide)

/-- The reader works out the verdict of `finish` again. -/
theorem proof_of_attested (hsem : IsSemantic rt view value analyzer) {options : Option AnalysisOptions}
    {j : AnalysisJob} {a : Attempt} (haccepted : j.accepted options = true)
    (h : Attests analyzer (Returns rt view value) j a) :
    ∃ proof, crmControlAnalysisProof rt view value options j j.snapshotHash (some a) = some proof ∧
      proof.analysis.bind (·.outcome) = j.assessmentStatus ∧ Reviewable (view j.request) proof := by
  obtain ⟨job, outcome, rule, hraw, hrequest, hreturns, hready, hstatus⟩ := h.answer
  obtain ⟨inputHash, model, modelSha256, promptVersion, response, ruleCode, rfl, rfl, hidentity, hvalid, hassess⟩ :=
    verdict_ready hready
  obtain ⟨validation, hvalidate, hreturns⟩ := hreturns
  have hvalid : validation.status ≠ .invalid := by
    intro hinvalid
    rw [hsem.validate hvalidate, hinvalid] at hvalid
    exact hvalid rfl
  obtain ⟨assessment, hassessment⟩ := Option.isSome_iff_exists.1 (hreturns hvalid hidentity ruleCode rfl)
  rw [hassess, hsem.assess hvalidate hassessment] at hstatus
  rw [hrequest] at hvalidate hassessment
  have hok := validation_ok hvalidate hvalid
  have hknown : assessment.status ≠ .unknown := by
    intro hunknown
    simp only [AnalysisJob.accepted, hstatus, hunknown, AssessmentStatus.stored] at haccepted
    simp at haccepted
  have hsummary : (crmControlAnalysisProjection options [j]).bind (·.outcome) = some assessment.status.stored := by
    simp [crmControlAnalysisProjection, haccepted, hstatus]
  unfold crmControlAnalysisProof
  simp only [Option.bind_some, hraw]
  rw [if_neg (by simp [hsummary])]
  by_cases hvalidated : validation.status = .validated
  · have hmissing : missingNote rt (view j.request) validation (some assessment.status.stored) = some false :=
      if_neg fun h => by rw [hvalidated] at h; cases h.1
    obtain ⟨findings, hfindings, hreview⟩ :=
      reviewable_of_validated hok hvalidated (crmControlAnalysisProjection options [j])
    refine ⟨_, ?_, hsummary.trans hstatus.symm, hreview⟩
    refine Option.bind_eq_some_iff.2
      ⟨validation, hvalidate, Option.bind_eq_some_iff.2 ⟨false, hsummary ▸ hmissing, ?_⟩⟩
    rw [if_neg (by simp [hvalidated])]
    exact Option.bind_eq_some_iff.2 ⟨findings, hfindings, rfl⟩
  · obtain ⟨hfail, habsent, hagain⟩ := assessed_unvalidated hassessment hknown hvalidated
    have hunknown : validation.status = .unknown := by
      cases hstatus : validation.status with
      | validated => exact absurd hstatus hvalidated
      | invalid => exact absurd hstatus hvalid
      | unknown => rfl
    have hcheck : (view j.request).check = .deadlineAgreement := by
      simp only [noteAbsent, Bool.and_eq_true, decide_eq_true_eq] at habsent
      exact habsent.1.1.1.2
    have hmissing : missingNote rt (view j.request) validation (some assessment.status.stored) = some true := by
      rw [missingNote, if_pos ⟨hunknown, by rw [hfail]; rfl, hcheck⟩, hagain, Option.map_some, hfail]
      rfl
    obtain ⟨findings, hfindings, hreview⟩ :=
      reviewable_of_noteAbsent hok habsent (crmControlAnalysisProjection options [j])
    refine ⟨_, ?_, hsummary.trans hstatus.symm, hreview⟩
    refine Option.bind_eq_some_iff.2
      ⟨validation, hvalidate, Option.bind_eq_some_iff.2 ⟨true, hsummary ▸ hmissing, ?_⟩⟩
    rw [if_neg (by simp)]
    exact Option.bind_eq_some_iff.2 ⟨findings, hfindings, rfl⟩

/-! ## The theorem -/

/-- What holds of the stored jobs and of the missing note. -/
structure ProofsAgree (rt : Runtime) (view : Json → Request) (value : Json → JsValue) (db : AnalysisDb) : Prop where
  /-- The outcome of the missing note is reached only when there is none. -/
  absence : ∀ request response ruleCode validation assessment,
    outcome rt request response ruleCode = some (validation, assessment) →
      FromMissingNote rt request validation ruleCode → NoManagerNote rt request
  /-- The verdict of an accepted job can be reviewed. -/
  proof : ∀ options, ∀ j ∈ db.jobs, j.accepted options = true →
    ∃ proof, crmControlAnalysisProof rt view value options j j.snapshotHash (db.readyAttempt j.id) = some proof ∧
      proof.analysis.bind (·.outcome) = j.assessmentStatus ∧ Reviewable (view j.request) proof

/-- **Verdicts and their proofs agree.** In every run of the processes whose analyzer is the semantic one. -/
theorem analysis_proofs_agree {env : Env} (hsem : IsSemantic rt view value analyzer)
    {w : World AnalysisDb AnalysisThread} (hreach : Run.ReachableVia (World.step (analysisAct env analyzer))
      (fun w a => Answers (Returns rt view value) w.store (w.locals a.1) a.2) analysisStart w) :
    ProofsAgree rt view value w.store where
  absence request response ruleCode validation assessment houtcome hmissing := by
    obtain ⟨found, hvalidate, houtcome⟩ := Option.bind_eq_some_iff.1 houtcome
    obtain ⟨verdict, -, houtcome⟩ := Option.bind_eq_some_iff.1 houtcome
    cases houtcome
    exact noManagerNote_of_missing hvalidate hmissing
  proof options j hj haccepted := by
    have hready : j.status = .ready := by
      simp only [AnalysisJob.accepted, Bool.and_eq_true, decide_eq_true_eq] at haccepted
      exact haccepted.1.1
    obtain ⟨a, ha, hattests⟩ := attested_of_reachable hreach j hj hready
    rw [readyAttempt_of_attests (analysis_of_reachable hreach.reachable).1 hj ha hattests]
    exact proof_of_attested hsem haccepted hattests

namespace Sample

/-- The stage lasts too long, and nobody wrote a note. -/
def deadlineRequest : Request :=
  { taskRequest with
    check := .deadlineAgreement, subjectId := none, sources := [], coverage := ⟨true, true, false⟩
    maxDueAt := some (js "2026-09-22T12:00:00+03:00") }

def typedRequest (_ : Json) : Request := deadlineRequest

def noteResponse (_ : Json) : JsValue := missingNoteResponse deadlineRequest

/-- The body of a validation is the response that it was made of. -/
def semanticAnalyzer : Analyzer where
  validate request response :=
    ⟨((validateCrmControlSemanticResponse runtime (typedRequest request) (noteResponse response)).map
      (·.status.stored)).getD .invalid, response⟩
  assess request validation ruleCode :=
    (((validateCrmControlSemanticResponse runtime (typedRequest request) (noteResponse validation.body)).bind
      (assessCrmControlSemantic runtime (typedRequest request) · ruleCode)).map fun assessment =>
        ⟨assessment.status.stored, assessment.message, policyVersion⟩).getD ⟨.unknown, "", policyVersion⟩

theorem isSemantic : IsSemantic runtime typedRequest noteResponse semanticAnalyzer where
  validate h := by simp [semanticAnalyzer, h]
  assess h hassess := by simp [semanticAnalyzer, h, hassess]

def returns (w : World AnalysisDb AnalysisThread) (a : ℕ × AnalysisAct) : Bool :=
  match w.locals a.1, a.2 with
  | .analysing _ job, .finish _ (.ready _ _ _ _ response) (some ruleCode) =>
    (outcome runtime (typedRequest job.request) (noteResponse response) ruleCode).isSome
  | _, .finish _ _ _ => false
  | _, _ => true

theorem answers_of_returns (w : World AnalysisDb AnalysisThread) (a : ℕ × AnalysisAct) (h : returns w a = true) :
    Answers (Returns runtime typedRequest noteResponse) w.store (w.locals a.1) a.2 := by
  intro options job now answer rule hthread hact
  rw [returns, hthread, hact] at h
  unfold analysed
  split_ifs
  · trivial
  · cases answer with
    | error => trivial
    | ready inputHash model modelSha256 promptVersion response =>
      cases rule with
      | none => exact nomatch h
      | some ruleCode =>
        obtain ⟨found, hfound⟩ := Option.isSome_iff_exists.1 h
        obtain ⟨validation, hvalidate, hfound⟩ := Option.bind_eq_some_iff.1 hfound
        obtain ⟨assessment, hassess, -⟩ := Option.bind_eq_some_iff.1 hfound
        refine ⟨validation, hvalidate, fun _ _ r hr => ?_⟩
        rw [← Option.some.inj hr, hassess]
        rfl

/-- The job is taken and finished. -/
def verdictRun : List (ℕ × AnalysisAct) :=
  [(0, .enqueue ⟨"result", "snapshot", "input", .null, CrmControl.Sample.localModel⟩ 0),
    (0, .processQueue 1000 CrmControl.Sample.localModel), (0, .advance), (0, .advance), (0, .advance), (0, .advance),
    (0, .finish 2000 (.ready "input" "model" "sha" "5" .null) (some "task_stage_deadline"))]

end Sample

/-- The deadline has passed without a note. -/
theorem analysis_proofs_agree_sample :
    ∃ w : World AnalysisDb AnalysisThread, ProofsAgree Sample.runtime Sample.typedRequest Sample.noteResponse w.store ∧
      w.store.jobs.any (·.accepted (some CrmControl.Sample.localModel)) = true := by
  have hrun : (Run.runIf Sample.returns
      (World.step (analysisAct CrmControl.Sample.environment Sample.semanticAnalyzer)) analysisStart
      Sample.verdictRun).any (fun w => w.store.jobs.any (·.accepted (some CrmControl.Sample.localModel))) = true := by
    decide +kernel
  obtain ⟨w, hreach, hw⟩ := Run.exists_of_runIf Sample.answers_of_returns hrun
  exact ⟨w, analysis_proofs_agree Sample.isSemantic hreach, hw⟩

/-- **A finding without a quotation.** The proof of a missing note has nothing to quote. -/
theorem absence_without_quotation :
    ∃ w, Run.ReachableVia (World.step (analysisAct CrmControl.Sample.environment Sample.semanticAnalyzer))
        (fun (w : World AnalysisDb AnalysisThread) a =>
          Answers (Returns Sample.runtime Sample.typedRequest Sample.noteResponse) w.store (w.locals a.1) a.2)
        analysisStart w ∧
      ∃ j ∈ w.store.jobs, j.accepted (some CrmControl.Sample.localModel) = true ∧
        ∃ proof, crmControlAnalysisProof Sample.runtime Sample.typedRequest Sample.noteResponse
            (some CrmControl.Sample.localModel) j j.snapshotHash (w.store.readyAttempt j.id) = some proof ∧
          ∃ finding ∈ proof.findings, finding.evidence = [] := by
  have hrun : (Run.runIf Sample.returns
      (World.step (analysisAct CrmControl.Sample.environment Sample.semanticAnalyzer)) analysisStart
      Sample.verdictRun).any (fun w : World AnalysisDb AnalysisThread => w.store.jobs.any fun j =>
        j.accepted (some CrmControl.Sample.localModel) &&
        (crmControlAnalysisProof Sample.runtime Sample.typedRequest Sample.noteResponse
          (some CrmControl.Sample.localModel) j j.snapshotHash (w.store.readyAttempt j.id)).any fun proof =>
            proof.findings.any (·.evidence.isEmpty)) = true := by
    decide +kernel
  obtain ⟨w, hreach, hw⟩ := Run.exists_of_runIf Sample.answers_of_returns hrun
  obtain ⟨j, hj, hw⟩ := List.any_eq_true.1 hw
  rw [Bool.and_eq_true, Option.any_eq_true] at hw
  obtain ⟨haccepted, proof, hproof, hw⟩ := hw
  obtain ⟨finding, hfinding, hempty⟩ := List.any_eq_true.1 hw
  exact ⟨w, hreach, j, hj, haccepted, proof, hproof, finding, hfinding, List.isEmpty_iff.1 hempty⟩

end AmoAnalytics.CrmControl.Semantic
