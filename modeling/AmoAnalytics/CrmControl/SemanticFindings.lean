import AmoAnalytics.CrmControl.SemanticVerdict

/-!
# What every finding of a valid response has

A response that is not invalid may still leave doubts. Whatever they are, each citation of a finding is a quotation
from a source of the request, and a finding of absence that some source stands against leaves its issue
(`FindingOk`). From that, a missing note of the manager is proved only when the request has none.
-/

namespace AmoAnalytics.CrmControl.Semantic

open JsText

variable {rt : Runtime} {request : Request} {pre : Preflight} {issues issues' : List Issue}

/-! ## Citations -/

/-- The citation quotes a source of the request. -/
def Quotes (request : Request) (citation : Citation) : Prop :=
  ∃ source ∈ request.sources, source.id = citation.sourceId ∧ source.sourceHash = citation.sourceHash ∧
    includes source.text citation.quote = true

theorem readEvidence_quotes {fact : Fact} {references : List JsValue} :
    ∀ {issues issues' : List Issue} {witnesses witnesses' : List Witness} {evidence evidence' : List Citation},
      readEvidence request pre fact issues witnesses evidence references =
          .ok (issues', witnesses', evidence') →
        (∀ citation ∈ evidence', citation ∈ evidence ∨ Quotes request citation) ∧
          evidence'.length = evidence.length + references.length ∧
          witnesses'.length ≤ witnesses.length + references.length := by
  induction references with
  | nil =>
    rintro issues issues' witnesses witnesses' evidence evidence' h
    cases h
    exact ⟨fun citation h => Or.inl h, rfl, le_rfl⟩
  | cons reference references ih =>
    intro issues issues' witnesses witnesses' evidence evidence' h
    rw [readEvidence] at h
    rcases hcitation : readCitation reference with _ | citation
    · rw [hcitation] at h
      cases h
    · rw [hcitation] at h
      dsimp only at h
      split at h
      · cases h
      · rename_i source hsource
        obtain ⟨hfound, hchecks⟩ := Option.filter_eq_some_iff.1 hsource
        rw [Bool.and_eq_true, decide_eq_true_eq] at hchecks
        obtain ⟨hquotes, hevidence, hwitnesses⟩ := ih h
        refine ⟨fun c hc => ?_, ?_, ?_⟩
        · rcases hquotes c hc with hold | hquote
          · rcases List.mem_append.1 hold with hold | hnew
            · exact Or.inl hold
            · obtain rfl := List.mem_singleton.1 hnew
              exact Or.inr ⟨source, List.mem_of_find?_eq_some hfound, by simpa using List.find?_some hfound, hchecks⟩
          · exact Or.inr hquote
        · rw [hevidence, List.length_append, List.length_singleton, List.length_cons]
          omega
        · rw [List.length_cons]
          split_ifs at hwitnesses
          · rw [List.length_append, List.length_singleton] at hwitnesses
            omega
          · omega

/-! ## Findings -/

/-- A source of the fact has no time up to the observation. -/
def undated (request : Request) (pre : Preflight) (fact : Fact) : Bool :=
  (request.sources.filter (supportsFact · fact request)).any fun source =>
    !(source.createdAt.bind instant).any (· ≤ pre.observedAt)

/-- What holds of a finding, given the issues at the end. -/
structure FindingOk (request : Request) (pre : Preflight) (issues : List Issue) (finding : Finding) : Prop where
  fact : finding.fact ∈ requiredFacts request.check
  quotes : ∀ citation ∈ finding.evidence, Quotes request citation
  present : finding.state.isText (js "present") = true → finding.evidence = [] →
    ⟨"MISSING_TRUSTED_WITNESS", some finding.fact, none⟩ ∈ issues
  dated : finding.state.isText (js "absent") = true → undated request pre finding.fact = true →
    ⟨"UNDATED_OR_FUTURE_SOURCE", some finding.fact, none⟩ ∈ issues
  attributed : finding.state.isText (js "absent") = true →
    request.sources.any (hasUncertainAttribution · finding.fact) = true →
      ⟨"UNATTRIBUTED_SOURCE", some finding.fact, none⟩ ∈ issues

theorem FindingOk.mono {finding : Finding} (h : FindingOk request pre issues finding) (hissues : issues ⊆ issues') :
    FindingOk request pre issues' finding where
  fact := h.fact
  quotes := h.quotes
  present hstate hnone := hissues (h.present hstate hnone)
  dated hstate hundated := hissues (h.dated hstate hundated)
  attributed hstate hany := hissues (h.attributed hstate hany)

theorem mem_unknownIf {condition : Bool} {code : String} {fact : Option Fact} {sourceId : Option JsString}
    (h : condition = true) : ⟨code, fact, sourceId⟩ ∈ unknownIf condition code fact sourceId := by
  rw [unknownIf, if_pos h]
  exact List.mem_singleton_self _

theorem readFact_mem {seen : List Fact} {item : JsValue} {fact : Fact} (h : readFact request seen item = some fact) :
    fact ∈ requiredFacts request.check ∧ fact ∉ seen := by
  unfold readFact at h
  split_ifs at h
  obtain ⟨s, -, hfound⟩ := Option.bind_eq_some_iff.1 h
  obtain ⟨hfind, hseen⟩ := Option.filter_eq_some_iff.1 hfound
  exact ⟨List.mem_of_find?_eq_some hfind, by simpa using hseen⟩

theorem readFinding_findingOk {seen : List Fact} {item : JsValue} {finding : Finding}
    (h : readFinding rt request pre seen issues item = .ok (issues', finding)) :
    FindingOk request pre issues' finding := by
  obtain ⟨references, witnesses, issues₁, hfact, -, hstate, hread, hdate⟩ := readFinding_ok h
  obtain ⟨hquotes, hevidence, hwitnesses⟩ := readEvidence_quotes hread
  -- every doubt about the state is among the issues
  have hdoubts : ∀ issue ∈ stateDoubts request pre finding.fact finding.state witnesses, issue ∈ issues' :=
    fun issue hissue => ( readDate_prefix hdate).subset (List.mem_append_right _ (hstate ▸ hissue))
  refine ⟨(readFact_mem hfact).1, fun c hc => (hquotes c hc).resolve_left List.not_mem_nil, fun hpresent hnone => ?_,
    fun habsent hundated => ?_, fun habsent hany => ?_⟩
  · have hempty : witnesses = [] := by
      rw [hnone] at hevidence
      simp only [List.length_nil] at hevidence hwitnesses
      exact List.eq_nil_of_length_eq_zero (by omega)
    refine hdoubts _ ?_
    simp only [stateDoubts, List.mem_append]
    exact Or.inl (Or.inl (Or.inl (Or.inr (mem_unknownIf (by rw [hpresent, hempty]; rfl)))))
  · refine hdoubts _ ?_
    simp only [stateDoubts, List.mem_append]
    exact Or.inl (Or.inr (mem_unknownIf (by rw [habsent, Bool.true_and]; exact hundated)))
  · refine hdoubts _ ?_
    simp only [stateDoubts, List.mem_append]
    exact Or.inr (mem_unknownIf (by rw [habsent, Bool.true_and]; exact hany))

/-- The findings so far keep what holds of them, and each new one has a new fact. -/
theorem readFindings_findingOk {items : List JsValue} :
    ∀ {issues issues' : List Issue} {findings findings' : List Finding},
      readFindings rt request pre issues findings items = .ok (issues', findings') →
        (∀ finding ∈ findings, FindingOk request pre issues finding) → (findings.map (·.fact)).Nodup →
        (∀ finding ∈ findings', FindingOk request pre issues' finding) ∧ (findings'.map (·.fact)).Nodup ∧
          findings'.length = findings.length + items.length := by
  induction items with
  | nil =>
    rintro issues issues' findings findings' h hok hnodup
    cases h
    exact ⟨hok, hnodup, rfl⟩
  | cons item items ih =>
    intro issues issues' findings findings' h hok hnodup
    rw [readFindings] at h
    rcases hread : readFinding rt request pre (findings.map (·.fact)) issues item with _ | ⟨issues₁, found⟩
    · rw [hread] at h
      cases h
    · rw [hread] at h
      have hprefix := (readFinding_spec hread).1
      obtain ⟨-, -, -, hfact, -⟩ := readFinding_ok hread
      have hok' : ∀ finding ∈ findings ++ [found], FindingOk request pre issues₁ finding := by
        intro finding hfinding
        rcases List.mem_append.1 hfinding with hold | hnew
        · exact (hok finding hold).mono hprefix.subset
        · obtain rfl := List.mem_singleton.1 hnew
          exact readFinding_findingOk hread
      have hnodup' : ((findings ++ [found]).map (·.fact)).Nodup := by
        rw [List.map_append, List.map_singleton, List.nodup_append]
        refine ⟨hnodup, List.nodup_singleton _, fun a ha b hb => ?_⟩
        rw [List.mem_singleton.1 hb]
        exact fun heq => (readFact_mem hfact).2 (heq ▸ ha)
      obtain ⟨hall, hfacts, hlength⟩ := ih h hok' hnodup'
      refine ⟨hall, hfacts, ?_⟩
      rw [hlength, List.length_append, List.length_singleton, List.length_cons]
      omega

/-! ## The whole response -/

theorem readFrame_length {value : JsValue} {items : List JsValue} {inspected : List JsString}
    (h : readFrame request issues value = .ok (items, inspected)) :
    items.length = (requiredFacts request.check).length := by
  unfold readFrame at h
  split at h
  · split_ifs at h with hframe
    · cases h
    · cases h
    · cases h
      simp only [Bool.or_eq_true, not_or, decide_eq_true_eq, not_not] at hframe
      exact hframe.1.2
  · cases h

/-- What holds of a validation that is not invalid. -/
structure ValidationOk (rt : Runtime) (request : Request) (validation : Validation) : Prop where
  read : ∃ pre, preflight rt request = .ok pre ∧
    ∀ finding ∈ validation.findings, FindingOk request pre validation.issues finding
  facts : (validation.findings.map (·.fact)).Nodup
  count : validation.findings.length = (requiredFacts request.check).length
  status : validation.status = if validation.issues = [] then .validated else .unknown

theorem validation_ok {response : JsValue} {validation : Validation}
    (h : validateCrmControlSemanticResponse rt request response = some validation)
    (hvalid : validation.status ≠ .invalid) : ValidationOk rt request validation := by
  unfold validateCrmControlSemanticResponse at h
  dsimp only at h
  split at h
  · rename_i issues findings hread
    obtain rfl := Option.some.inj h
    obtain ⟨pre, value, items, inspected, issues₁, hpre, -, hframe, hfindings, rfl⟩ := readResponse_ok hread
    obtain ⟨hok, hfacts, hlength⟩ := readFindings_findingOk hfindings (fun _ h => nomatch h) List.nodup_nil
    refine ⟨⟨pre, hpre, fun finding hfinding => (hok finding hfinding).mono (List.subset_append_left _ _)⟩,
      hfacts, ?_, rfl⟩
    rw [hlength, List.length_nil, Nat.zero_add, readFrame_length hframe]
  · obtain rfl := Option.some.inj h
    exact absurd rfl hvalid
  · cases h

theorem ValidationOk.findings_ne_nil {validation : Validation} (h : ValidationOk rt request validation) :
    validation.findings ≠ [] := by
  intro hnil
  have hcount := h.count
  rw [hnil] at hcount
  cases hcheck : request.check <;> rw [hcheck] at hcount <;> exact nomatch hcount

/-! ## The missing note -/

/-- The outcome is the one of the missing note. -/
def FromMissingNote (rt : Runtime) (request : Request) (validation : Validation) (ruleCode : String) : Prop :=
  noteAbsent request validation ruleCode = true ∧
    ∃ proof, crmControlMissingManagerNoteProof rt request = some (some proof)

/-- From the stage entry to the observation there is no note of a manager that says anything. -/
def NoManagerNote (rt : Runtime) (request : Request) : Prop :=
  ∃ stage observed, rt.dateParse (request.stageEnteredAt.getD []) = some stage ∧
    rt.dateParse request.observedAt = some observed ∧
    ∀ source ∈ request.sources, source.kind = .managerNote → source.actor = .manager → blank source.text = false →
      ∀ createdAt, source.createdAt.bind rt.dateParse = some createdAt → ¬ (stage ≤ createdAt ∧ createdAt ≤ observed)

theorem hasState_iff {findings : List Finding} {fact : Fact} {state : String} :
    hasState findings fact state = true ↔
      ∃ finding ∈ findings, finding.fact = fact ∧ finding.state.isText (js state) = true := by
  simp only [hasState, List.any_eq_true, Bool.and_eq_true, decide_eq_true_eq]

/-- Every note of the manager names its author and has a time. -/
theorem noteAbsent_attributed {response : JsValue} {validation : Validation} {ruleCode : String}
    (h : validateCrmControlSemanticResponse rt request response = some validation)
    (habsent : noteAbsent request validation ruleCode = true) {source : Source} (hsource : source ∈ request.sources)
    (hkind : source.kind = .managerNote) (hactor : source.actor = .manager) :
    missing source.actorId = false ∧ missing source.createdAt = false := by
  simp only [noteAbsent, Bool.and_eq_true, decide_eq_true_eq] at habsent
  obtain ⟨⟨⟨⟨hvalid, hcheck⟩, -⟩, hstate⟩, hissues⟩ := habsent
  obtain ⟨⟨pre, -, hok⟩, -⟩ := validation_ok h hvalid
  obtain ⟨finding, hfinding, hfact, hstate⟩ := hasState_iff.1 hstate
  have hok := hok finding hfinding
  have hunrelated := List.all_eq_true.1 hissues
  have hactorId : missing source.actorId = false := by
    by_contra hmissing
    rw [Bool.not_eq_false] at hmissing
    have hissue := hunrelated _ (hok.attributed hstate (List.any_eq_true.2 ⟨source, hsource, by
      simp [hasUncertainAttribution, hfact, Fact.ofTask, Fact.ofNote, hactor, hkind, hmissing]⟩))
    simp [unrelatedToMissingManagerNote] at hissue
  refine ⟨hactorId, ?_⟩
  by_contra hmissing
  rw [Bool.not_eq_false] at hmissing
  have hnone : source.createdAt.bind instant = none := by
    cases hcreated : source.createdAt with
    | none => rfl
    | some s =>
      rw [hcreated] at hmissing
      obtain rfl : s = [] := of_decide_eq_true hmissing
      rfl
  have hsupports : supportsFact source finding.fact request = true := by
    simp [supportsFact, hfact, hkind, hactor, hactorId, Fact.ofTask, Fact.ofNote]
  have hissue := hunrelated _ (hok.dated hstate (List.any_eq_true.2 ⟨source,
    List.mem_filter.2 ⟨hsource, hsupports⟩, by rw [hnone]; rfl⟩))
  simp [unrelatedToMissingManagerNote] at hissue

theorem proof_noNotes {proof : JsValue × Validation}
    (h : crmControlMissingManagerNoteProof rt request = some (some proof)) :
    ∃ stage observed, rt.dateParse (request.stageEnteredAt.getD []) = some stage ∧
      rt.dateParse request.observedAt = some observed ∧
      request.sources.any (isManagerNote rt stage observed) = false := by
  unfold crmControlMissingManagerNoteProof at h
  split_ifs at h with hcheck
  · cases h
  split at h
  · rename_i stage observed hstage hobserved
    split_ifs at h with hnote
    · cases h
    rw [Bool.or_eq_true, not_or] at hnote
    exact ⟨stage, observed, hstage, hobserved, Bool.eq_false_iff.2 hnote.2⟩
  · cases h

/-- **A missing note is missing.** -/
theorem noManagerNote_of_missing {response : JsValue} {validation : Validation} {ruleCode : String}
    (h : validateCrmControlSemanticResponse rt request response = some validation)
    (hmissing : FromMissingNote rt request validation ruleCode) : NoManagerNote rt request := by
  obtain ⟨habsent, proof, hproof⟩ := hmissing
  obtain ⟨stage, observed, hstage, hobserved, hnone⟩ := proof_noNotes hproof
  refine ⟨stage, observed, hstage, hobserved, fun source hsource hkind hactor htext createdAt hcreated hwindow => ?_⟩
  obtain ⟨hactorId, hdated⟩ := noteAbsent_attributed h habsent hsource hkind hactor
  refine absurd (List.any_eq_false.1 hnone source hsource) (not_not.2 ?_)
  simp [isManagerNote, hkind, hactor, hactorId, htext, hdated, hcreated, hwindow.1, hwindow.2]

end AmoAnalytics.CrmControl.Semantic
