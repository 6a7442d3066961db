import AmoAnalytics.CrmControl.SemanticPolicy

/-!
# What a semantic verdict rests on

The response of the analyzer is not trusted: an outcome that rests on a fact being present needs a
source of the request that the policy admits for the fact, in the time of the request, with the digest
of its own text and with the quotation in it. The lemmas go up from the evidence of one finding.
-/

namespace AmoAnalytics.CrmControl.Semantic

open JsText

variable {rt : Runtime} {request : Request} {pre : Preflight}

/-! ## Admitted sources -/

/-- The sources that the policy admits for a fact: the task itself with its assignee, a note of the
manager, or an incoming message of the customer (for a price, also of the supplier). -/
def Admits (request : Request) (source : Source) : Fact → Prop
  | .action | .stageRelevance => source.kind = .task ∧ source.subjectId = request.subjectId ∧
      source.assignedManagerId = some request.ownerId
  | .managerNote | .transferReason | .presentationDate =>
    source.kind = .managerNote ∧ source.actor = .manager ∧ missing source.actorId = false
  | .customerAgreement | .agreedDeadline =>
    source.actor = .customer ∧ (source.kind = .message ∨ source.kind = .customerMessage) ∧
      source.direction = .incoming ∧ missing source.actorId = false
  | .priceDelayReason =>
    (source.actor = .customer ∧ (source.kind = .message ∨ source.kind = .customerMessage) ∨
      source.actor = .supplier ∧ (source.kind = .message ∨ source.kind = .supplierMessage)) ∧
      source.direction = .incoming ∧ missing source.actorId = false

theorem fromCustomer_iff {source : Source} : fromCustomer source = true ↔
    source.actor = .customer ∧ (source.kind = .message ∨ source.kind = .customerMessage) ∧
      source.direction = .incoming := by
  simp only [fromCustomer, Bool.and_eq_true, Bool.or_eq_true, decide_eq_true_eq, and_assoc]

theorem fromSupplier_iff {source : Source} : fromSupplier source = true ↔
    source.actor = .supplier ∧ (source.kind = .message ∨ source.kind = .supplierMessage) ∧
      source.direction = .incoming := by
  simp only [fromSupplier, Bool.and_eq_true, Bool.or_eq_true, decide_eq_true_eq, and_assoc]

theorem admits_of_supports {source : Source} {fact : Fact} (h : supportsFact source fact request = true) :
    Admits request source fact := by
  unfold supportsFact at h
  split_ifs at h with hcall htask hactor hnote hagreement
  · simp only [Bool.and_eq_true, decide_eq_true_eq] at h
    cases fact <;> first | exact absurd htask (by decide) | exact ⟨h.1.1, h.1.2, h.2⟩
  all_goals
    have hnamed : missing source.actorId = false := by
      simp only [Bool.or_eq_true, not_or] at hactor
      exact Bool.eq_false_iff.2 hactor.1.1
  · simp only [Bool.and_eq_true, decide_eq_true_eq] at h
    cases fact <;> first | exact absurd hnote (by decide) | exact ⟨h.1, h.2, hnamed⟩
  · obtain ⟨hcustomer, hkind, hincoming⟩ := fromCustomer_iff.1 h
    cases fact <;> first | exact absurd hagreement (by decide) | exact ⟨hcustomer, hkind, hincoming, hnamed⟩
  · rw [Bool.or_eq_true, fromCustomer_iff, fromSupplier_iff] at h
    have hprice : fact = .priceDelayReason := by
      cases fact <;> first | rfl | exact absurd rfl htask | exact absurd rfl hnote | exact absurd rfl hagreement
    subst hprice
    rcases h with ⟨hcustomer, hkind, hincoming⟩ | ⟨hsupplier, hkind, hincoming⟩
    · exact ⟨Or.inl ⟨hcustomer, hkind⟩, hincoming, hnamed⟩
    · exact ⟨Or.inr ⟨hsupplier, hkind⟩, hincoming, hnamed⟩

/-! ## The evidence of a finding -/

/-- A witness that a reference of the response quotes. -/
structure Cites (request : Request) (pre : Preflight) (fact : Fact) (references : List JsValue)
    (witness : Witness) : Prop where
  mem : witness.source ∈ request.sources
  window : inWindow pre fact witness.source = true
  supports : supportsFact witness.source fact request = true
  quoted : includes witness.source.text witness.quote = true
  reference : ∃ reference ∈ references, readCitation reference =
    some ⟨witness.source.id, witness.source.sourceHash, witness.quote⟩

theorem readEvidence_spec {fact : Fact} {references : List JsValue} :
    ∀ {issues issues' : List Issue} {witnesses witnesses' : List Witness} {evidence evidence' : List Citation},
      readEvidence request pre fact issues witnesses evidence references =
          .ok (issues', witnesses', evidence') →
        issues <+: issues' ∧ ∀ w ∈ witnesses', w ∈ witnesses ∨ Cites request pre fact references w := by
  induction references with
  | nil =>
    rintro issues issues' witnesses witnesses' evidence evidence' h
    cases h
    exact ⟨List.prefix_rfl, fun w hw => Or.inl hw⟩
  | cons reference references ih =>
    intro issues issues' witnesses witnesses' evidence evidence' h
    rw [readEvidence] at h
    rcases hcitation : readCitation reference with _ | citation
    · rw [hcitation] at h
      cases h
    · rw [hcitation] at h
      dsimp only at h
      split at h
      · cases h
      · rename_i source hsource
        obtain ⟨hfound, hchecks⟩ := Option.filter_eq_some_iff.1 hsource
        obtain ⟨hissues, hwitnesses⟩ := ih h
        refine ⟨(List.prefix_append _ _).trans hissues, fun w hw => ?_⟩
        rcases hwitnesses w hw with hold | hcites
        · split_ifs at hold with hsupports
          · rcases List.mem_append.1 hold with hold | hnew
            · exact Or.inl hold
            · -- The reference itself is the witness.
              obtain rfl := List.mem_singleton.1 hnew
              rw [Bool.and_eq_true] at hsupports
              rw [Bool.and_eq_true, decide_eq_true_eq] at hchecks
              have hid : source.id = citation.sourceId := by simpa using List.find?_some hfound
              refine Or.inr ⟨List.mem_of_find?_eq_some hfound, hsupports.1, hsupports.2, hchecks.2,
                reference, List.mem_cons_self, ?_⟩
              rw [hcitation, hid, hchecks.1]
          · exact Or.inl hold
        · obtain ⟨other, hother, hread⟩ := hcites.reference
          exact Or.inr { hcites with reference := ⟨other, List.mem_cons_of_mem _ hother, hread⟩ }

/-! ## One finding -/

theorem readDate_prefix {fact : Fact} {item : JsValue} {witnesses : List Witness}
    {issues issues' : List Issue} {date : Option SemanticDate}
    (h : readDate rt pre fact item witnesses issues = .ok (issues', date)) : issues <+: issues' := by
  unfold readDate at h
  split_ifs at h
  · cases h
    exact List.prefix_rfl
  · split at h
    · cases h
      exact List.prefix_append _ _
    · split_ifs at h
      · cases h
      · cases h
        exact List.prefix_rfl

/-- The references of an item, when they are an array. -/
def referencesOf (item : JsValue) : List JsValue := ((item.get "evidence").arr?).getD []

theorem unknownIf_eq_nil {condition : Bool} {code : String} {fact : Option Fact} {sourceId : Option JsString} :
    unknownIf condition code fact sourceId = [] ↔ condition = false := by
  rw [unknownIf, ite_eq_right_iff, Bool.eq_false_iff]
  exact ⟨fun h hcondition => List.cons_ne_nil _ _ (h hcondition), fun h hcondition => absurd hcondition h⟩

theorem witnesses_of_noDoubts {fact : Fact} {state : JsValue} {witnesses : List Witness}
    (h : stateDoubts request pre fact state witnesses = []) (hpresent : state.isText (js "present") = true) :
    witnesses ≠ [] := by
  simp only [stateDoubts, List.append_eq_nil_iff, unknownIf_eq_nil] at h
  intro hnil
  have hmissing := h.1.1.1.2
  rw [hpresent, hnil] at hmissing
  cases hmissing

theorem readFact_code {seen : List Fact} {item : JsValue} {fact : Fact}
    (h : readFact request seen item = some fact) : (item.get "fact").str? = some (js fact.code) := by
  unfold readFact at h
  split_ifs at h
  obtain ⟨s, hs, hfound⟩ := Option.bind_eq_some_iff.1 h
  have hcode := List.find?_some (Option.filter_eq_some_iff.1 hfound).1
  rw [hs, of_decide_eq_true hcode]

theorem readState_references {item : JsValue} {references : List JsValue}
    (h : readState item = some (some references)) : referencesOf item = references := by
  obtain ⟨s, -, hs⟩ := Option.map_eq_some_iff.1 h
  split_ifs at hs
  rw [referencesOf, (Option.filter_eq_some_iff.1 hs).1, Option.getD_some]

/-- What is read of one item of the response. -/
theorem readFinding_ok {seen : List Fact} {issues issues' : List Issue} {item : JsValue} {finding : Finding}
    (h : readFinding rt request pre seen issues item = .ok (issues', finding)) :
    ∃ references witnesses issues₁, readFact request seen item = some finding.fact ∧
      readState item = some (some references) ∧ finding.state = item.get "state" ∧
      readEvidence request pre finding.fact issues [] [] references = .ok (issues₁, witnesses, finding.evidence) ∧
      readDate rt pre finding.fact item witnesses
        (issues₁ ++ stateDoubts request pre finding.fact (item.get "state") witnesses) =
          .ok (issues', finding.date) := by
  unfold readFinding at h
  split at h
  · cases h
  · rename_i fact hfact
    split at h
    · cases h
    · cases h
    · rename_i references hreferences
      split at h
      · cases h
      · cases h
      · rcases hread : readEvidence request pre fact issues [] [] references with
          _ | ⟨issues₁, witnesses, evidence⟩
        · rw [hread] at h
          cases h
        · rw [hread] at h
          change (readDate rt pre fact item witnesses _ >>= _) = _ at h
          rcases hdate : readDate rt pre fact item witnesses
              (issues₁ ++ stateDoubts request pre fact (item.get "state") witnesses) with _ | ⟨issues₂, date⟩
          · rw [hdate] at h
            cases h
          · rw [hdate] at h
            cases h
            exact ⟨references, witnesses, issues₁, hfact, hreferences, rfl, hread, hdate⟩

/-- A finding that is present, without an issue, has a witness. -/
theorem readFinding_spec {seen : List Fact} {issues issues' : List Issue} {item : JsValue}
    {finding : Finding} (h : readFinding rt request pre seen issues item = .ok (issues', finding)) :
    issues <+: issues' ∧ finding.state = item.get "state" ∧
      (item.get "fact").str? = some (js finding.fact.code) ∧
      (issues' = [] → finding.state.isText (js "present") = true →
        ∃ witness, Cites request pre finding.fact (referencesOf item) witness) := by
  obtain ⟨references, witnesses, issues₁, hfact, hreferences, hstate, hread, hdate⟩ := readFinding_ok h
  obtain ⟨hissues, hwitnesses⟩ := readEvidence_spec hread
  have hdoubts := readDate_prefix hdate
  refine ⟨hissues.trans ((List.prefix_append _ _).trans hdoubts), hstate, readFact_code hfact,
    fun hnone hpresent => ?_⟩
  rw [hnone, List.prefix_nil, List.append_eq_nil_iff] at hdoubts
  have hsome := witnesses_of_noDoubts hdoubts.2 (hstate ▸ hpresent)
  obtain ⟨witness, hwitness⟩ := List.exists_mem_of_ne_nil _ hsome
  rw [readState_references hreferences]
  exact ⟨witness, (hwitnesses witness hwitness).resolve_left List.not_mem_nil⟩

/-! ## The whole response -/

/-- An item of the response and the finding read from it, without an issue. -/
structure Grounds (request : Request) (pre : Preflight) (item : JsValue) (finding : Finding) : Prop where
  state : finding.state = item.get "state"
  fact : (item.get "fact").str? = some (js finding.fact.code)
  witness : finding.state.isText (js "present") = true →
    ∃ witness, Cites request pre finding.fact (referencesOf item) witness

theorem readFindings_spec {items : List JsValue} :
    ∀ {issues issues' : List Issue} {findings findings' : List Finding},
      readFindings rt request pre issues findings items = .ok (issues', findings') →
        issues <+: issues' ∧ (issues' = [] → ∀ finding ∈ findings', finding ∈ findings ∨
          ∃ item ∈ items, Grounds request pre item finding) := by
  induction items with
  | nil =>
    rintro issues issues' findings findings' h
    cases h
    exact ⟨List.prefix_rfl, fun _ finding hfinding => Or.inl hfinding⟩
  | cons item items ih =>
    intro issues issues' findings findings' h
    rw [readFindings] at h
    rcases hread : readFinding rt request pre (findings.map (·.fact)) issues item with
      _ | ⟨issues₁, found⟩
    · rw [hread] at h
      cases h
    · rw [hread] at h
      obtain ⟨hissues, hstate, hfact, hwitness⟩ := readFinding_spec hread
      obtain ⟨hrest, hgrounds⟩ := ih h
      refine ⟨hissues.trans hrest, fun hnone finding hfinding => ?_⟩
      have hnone₁ : issues₁ = [] := List.prefix_nil.1 (hnone ▸ hrest)
      rcases hgrounds hnone finding hfinding with hold | ⟨other, hother, hground⟩
      · rcases List.mem_append.1 hold with hold | hnew
        · exact Or.inl hold
        · obtain rfl := List.mem_singleton.1 hnew
          exact Or.inr ⟨item, List.mem_cons_self, hstate, hfact, hwitness hnone₁⟩
      · exact Or.inr ⟨other, List.mem_cons_of_mem _ hother, hground⟩

theorem hash_of_noProblem {seen : List JsString} {source : Source}
    (h : sourceProblem rt request seen source = none) : source.sourceHash = rt.textHash source.text := by
  unfold sourceProblem at h
  split_ifs at h with h₁ h₂ h₃ h₄ hhash
  exact not_not.1 hhash

theorem readSources_hashes {sources : List Source} :
    ∀ {issues issues' : List Issue} {seen : List JsString} {characters : ℕ},
      readSources rt request issues seen characters sources = .ok issues' →
        ∀ source ∈ sources, source.sourceHash = rt.textHash source.text := by
  induction sources with
  | nil => exact fun _ source hsource => absurd hsource List.not_mem_nil
  | cons first sources ih =>
    intro issues issues' seen characters h
    rw [readSources] at h
    split at h
    · cases h
    · rename_i hproblem
      dsimp only at h
      split_ifs at h
      · cases h
      · intro source hsource
        rcases List.mem_cons.1 hsource with rfl | hsource
        · exact hash_of_noProblem hproblem
        · exact ih h source hsource

theorem id_of_noProblem {seen : List JsString} {source : Source} (h : sourceProblem rt request seen source = none) :
    id source.id = true ∧ source.id ∉ seen := by
  unfold sourceProblem at h
  split_ifs at h with hinvalid
  simp only [Bool.or_eq_true, not_or, Bool.not_eq_true', Bool.not_eq_false, List.contains_iff_mem] at hinvalid
  exact ⟨hinvalid.1.1.1.1, hinvalid.1.1.1.2⟩

/-- The sources that the loop accepts have different valid ids. -/
theorem readSources_ids {sources : List Source} {issues issues' : List Issue} {seen : List JsString} {characters : ℕ}
    (h : readSources rt request issues seen characters sources = .ok issues') :
    (sources.map (·.id)).Nodup ∧ ∀ source ∈ sources, id source.id = true ∧ source.id ∉ seen := by
  induction sources generalizing issues seen characters with
  | nil => exact ⟨List.nodup_nil, nofun⟩
  | cons first sources ih =>
    rw [readSources] at h
    split at h
    · exact nomatch h
    · next hproblem =>
      dsimp only at h
      split_ifs at h
      · exact nomatch h
      · obtain ⟨hnodup, hids⟩ := ih h
        refine ⟨?_, List.forall_mem_cons.2 ⟨id_of_noProblem hproblem, fun source hsource => ?_⟩⟩
        · rw [List.map_cons, List.nodup_cons]
          refine ⟨fun hmem => ?_, hnodup⟩
          obtain ⟨source, hsource, hid⟩ := List.mem_map.1 hmem
          exact (hids source hsource).2 (hid ▸ List.mem_cons_self)
        · exact ⟨(hids source hsource).1, fun hmem => (hids source hsource).2 (List.mem_cons_of_mem _ hmem)⟩

/-- The preflight reads the times of the request and runs the loop over its sources. -/
theorem preflight_reads (h : preflight rt request = .ok pre) :
    instant request.observedAt = some pre.observedAt ∧
      pre.stageEnteredAt = request.stageEnteredAt.bind instant ∧
      ∃ issues issues', readSources rt request issues [] 0 request.sources = .ok issues' := by
  unfold preflight at h
  split at h
  · cases h
  · rename_i observedAt hobserved
    split_ifs at h
    · cases h
    · cases h
    · cases h
    · split at h
      · cases h
      · dsimp only at h
        rcases hread : readSources rt request _ [] 0 request.sources with _ | issues
        · rw [hread] at h
          cases h
        · rw [hread] at h
          cases h
          exact ⟨hobserved, rfl, _, issues, hread⟩

/-- The preflight reads the times of the request, and every source has its own digest. -/
theorem preflight_spec (h : preflight rt request = .ok pre) :
    instant request.observedAt = some pre.observedAt ∧
      pre.stageEnteredAt = request.stageEnteredAt.bind instant ∧
      ∀ source ∈ request.sources, source.sourceHash = rt.textHash source.text := by
  obtain ⟨hobserved, hstage, issues, issues', hread⟩ := preflight_reads h
  exact ⟨hobserved, hstage, readSources_hashes hread⟩

theorem preflight_ids (h : preflight rt request = .ok pre) :
    (request.sources.map (·.id)).Nodup ∧ ∀ source ∈ request.sources, id source.id = true := by
  obtain ⟨-, -, issues, issues', hread⟩ := preflight_reads h
  obtain ⟨hnodup, hids⟩ := readSources_ids hread
  exact ⟨hnodup, fun source hsource => (hids source hsource).1⟩

theorem readFrame_spec {issues : List Issue} {value : JsValue} {items : List JsValue}
    {inspected : List JsString} (h : readFrame request issues value = .ok (items, inspected)) :
    (value.get "findings").arr? = some items ∧
      idTexts (value.get "inspectedSourceIds") = some inspected ∧
      ∀ source ∈ request.sources, source.id ∈ inspected := by
  unfold readFrame at h
  split at h
  · rename_i hitems hinspected
    split_ifs at h with hframe hall
    · cases h
    · cases h
    · cases h
      refine ⟨hitems, hinspected, fun source hsource => ?_⟩
      simp only [Bool.or_eq_true, decide_eq_true_eq, List.any_eq_true, Bool.not_eq_true',
        List.contains_eq_mem, decide_eq_false_iff_not, not_or, not_exists, not_and, not_not] at hall
      exact hall.2 source hsource
  · cases h

/-- What is read of the response. -/
theorem readResponse_ok {response : JsValue} {issues : List Issue} {findings : List Finding}
    (h : readResponse rt request response = .ok (issues, findings)) :
    ∃ pre value items inspected issues₁, preflight rt request = .ok pre ∧
      parseResponse rt pre.issues response = .ok value ∧
      readFrame request pre.issues value = .ok (items, inspected) ∧
      readFindings rt request pre pre.issues [] items = .ok (issues₁, findings) ∧
      issues = issues₁ ++ coverageDoubts request findings := by
  unfold readResponse at h
  rcases hpre : preflight rt request with _ | pre
  · rw [hpre] at h
    cases h
  rw [hpre] at h
  change (parseResponse rt pre.issues response >>= _) = _ at h
  rcases hvalue : parseResponse rt pre.issues response with _ | value
  · rw [hvalue] at h
    cases h
  rw [hvalue] at h
  change (readFrame request pre.issues value >>= _) = _ at h
  rcases hframe : readFrame request pre.issues value with _ | ⟨items, inspected⟩
  · rw [hframe] at h
    cases h
  rw [hframe] at h
  change (readFindings rt request pre pre.issues [] items >>= _) = _ at h
  rcases hfindings : readFindings rt request pre pre.issues [] items with _ | ⟨issues₁, found⟩
  · rw [hfindings] at h
    cases h
  rw [hfindings] at h
  cases h
  exact ⟨pre, value, items, inspected, issues₁, rfl, hvalue, hframe, hfindings, rfl⟩

theorem readResponse_spec {response : JsValue} {issues : List Issue} {findings : List Finding}
    (h : readResponse rt request response = .ok (issues, findings)) (hnone : issues = []) :
    ∃ pre value items inspected, preflight rt request = .ok pre ∧
      parseResponse rt pre.issues response = .ok value ∧
      readFrame request pre.issues value = .ok (items, inspected) ∧
      ∀ finding ∈ findings, ∃ item ∈ items, Grounds request pre item finding := by
  obtain ⟨pre, value, items, inspected, issues₁, hpre, hvalue, hframe, hfindings, rfl⟩ := readResponse_ok h
  have hread := (readFindings_spec hfindings).2 (List.append_eq_nil_iff.1 hnone).1
  exact ⟨pre, value, items, inspected, hpre, hvalue, hframe,
    fun finding hfinding => (hread finding hfinding).resolve_left List.not_mem_nil⟩

theorem readResponse_of_validated {response : JsValue} {validation : Validation}
    (h : validateCrmControlSemanticResponse rt request response = some validation)
    (hstatus : validation.status = .validated) :
    readResponse rt request response = .ok ([], validation.findings) := by
  unfold validateCrmControlSemanticResponse at h
  dsimp only at h
  split at h
  · rename_i issues findings hread
    obtain rfl := Option.some.inj h
    dsimp only at hstatus
    split_ifs at hstatus with hnone
    rw [hread, hnone]
  · obtain rfl := Option.some.inj h
    cases hstatus
  · cases h

/-! ## The policy -/

/-- The outcome rests on facts that are present: it passes, or fails though no fact is absent. -/
def RestsOnPresence (validation : Validation) (assessment : Assessment) : Prop :=
  assessment.status = .pass ∨
    (assessment.status = .fail ∧
      ∀ finding ∈ validation.findings, finding.state.isText (js "absent") = false)

theorem hasState_false {findings : List Finding} {state : String} (fact : Fact)
    (h : ∀ finding ∈ findings, finding.state.isText (js state) = false) :
    hasState findings fact state = false := by
  rw [hasState, List.any_eq_false]
  intro finding hfinding
  rw [h finding hfinding, Bool.and_false]
  exact Bool.false_ne_true

section

variable {findings : List Finding} {ruleCode : String} {assessment : Assessment}

/-- The verdict rests on the presence of the facts that it names. -/
def Decided (findings : List Finding) (assessment : Assessment) : Prop :=
  assessment.status ≠ .unknown ∧
    ∀ fact, hasState findings fact "absent" = true → assessment.status = .pass

theorem Decided.not_fail {fact : Fact} {message : String} (h : Decided findings ⟨.fail, message⟩) :
    ¬hasState findings fact "absent" = true :=
  fun habsent => AssessmentStatus.noConfusion (h.2 fact habsent)

theorem Decided.not_unknown {message : String} (h : Decided findings ⟨.unknown, message⟩) : False :=
  h.1 rfl

theorem present_of_assessTask (h : Decided findings (assessTask findings)) :
    ∀ fact ∈ requiredFacts .taskAction, hasState findings fact "present" = true := by
  unfold assessTask at h
  split_ifs at h with haction hstage hpresent
  · exact absurd haction h.not_fail
  · exact absurd hstage h.not_fail
  · exact List.all_eq_true.1 hpresent
  · exact h.not_unknown.elim

theorem present_of_assessProposal (h : assessProposal rt request findings = some assessment)
    (hdecided : Decided findings assessment) :
    ∀ fact ∈ requiredFacts .proposalNote, hasState findings fact "present" = true := by
  by_contra hmissing
  have hpresent : ¬(requiredFacts .proposalNote).all (hasState findings · "present") = true :=
    fun hall => hmissing (List.all_eq_true.1 hall)
  unfold assessProposal at h
  rw [requiredFacts] at hpresent
  simp only [if_neg hpresent] at h
  split_ifs at h with hreason hdate
  · cases h
    exact hdecided.not_fail hreason
  · cases h
    exact hdecided.not_fail hdate
  · split at h
    all_goals
      cases h
      exact hdecided.not_unknown

theorem present_of_assessDeadline (h : assessDeadline rt request findings ruleCode = some assessment)
    (hdecided : Decided findings assessment) :
    ∀ fact ∈ requiredFacts .deadlineAgreement, hasState findings fact "present" = true := by
  by_contra hmissing
  have hpresent : ¬(requiredFacts .deadlineAgreement).all (hasState findings · "present") = true :=
    fun hall => hmissing (List.all_eq_true.1 hall)
  unfold assessDeadline at h
  rw [requiredFacts] at hpresent
  simp only [if_neg hpresent] at h
  split_ifs at h with hlimit hnote hagreement
  · cases h
    exact hdecided.not_unknown
  · cases h
    exact hdecided.not_fail hnote
  · cases h
    rcases Bool.or_eq_true_iff.1 hagreement with hcustomer | hdeadline
    · exact hdecided.not_fail hcustomer
    · exact hdecided.not_fail hdeadline
  · split at h
    all_goals
      cases h
      exact hdecided.not_unknown

theorem present_of_assessPrice (h : Decided findings (assessPrice rt request findings)) :
    ∀ fact ∈ requiredFacts .priceDelay, hasState findings fact "present" = true := by
  unfold assessPrice at h
  split_ifs at h with hlimit hpresent habsent
  · exact h.not_unknown.elim
  · intro fact hfact
    obtain rfl := List.mem_singleton.1 hfact
    exact hpresent
  · exact absurd habsent h.not_fail
  · exact h.not_unknown.elim

/-- A verdict that the findings alone give rests on the presence of every fact of the check. -/
theorem present_of_assessFindings
    (h : assessFindings rt request findings ruleCode = some assessment)
    (hdecided : Decided findings assessment) :
    ∀ fact ∈ requiredFacts request.check, hasState findings fact "present" = true := by
  unfold assessFindings at h
  split at h <;> rename_i hcheck <;> rw [hcheck]
  · split_ifs at h <;> cases h
    · exact present_of_assessTask hdecided
    · exact hdecided.not_unknown.elim
  · split_ifs at h
    · exact present_of_assessProposal h hdecided
    · cases h
      exact hdecided.not_unknown.elim
  · split_ifs at h
    · exact present_of_assessDeadline h hdecided
    · cases h
      exact hdecided.not_unknown.elim
  · split_ifs at h <;> cases h
    · exact present_of_assessPrice hdecided
    · exact hdecided.not_unknown.elim

end

theorem Decided.of_rests {validation : Validation} {assessment : Assessment}
    (h : RestsOnPresence validation assessment) : Decided validation.findings assessment := by
  constructor
  · rcases h with hpass | hfail
    · rw [hpass]
      decide
    · rw [hfail.1]
      decide
  · exact fun fact hfact => h.resolve_right fun hfail =>
      Bool.false_ne_true ((hasState_false fact hfail.2).symm.trans hfact)

/-- An outcome that rests on presence is decided by the findings of a validated response. -/
theorem assessed_of_rests {validation : Validation} {ruleCode : String} {assessment : Assessment}
    (h : assessCrmControlSemantic rt request validation ruleCode = some assessment)
    (hrests : RestsOnPresence validation assessment) :
    validation.status = .validated ∧
      assessFindings rt request validation.findings ruleCode = some assessment := by
  have hdecided := Decided.of_rests hrests
  unfold assessCrmControlSemantic at h
  split at h
  · cases h
    exact hdecided.not_unknown.elim
  · dsimp only at h
    split at h
    · rename_i hnote
      -- The note is absent, so the outcome can only be one that passes.
      have habsent : hasState validation.findings .managerNote "absent" = true := by
        rw [noteAbsent, Bool.and_eq_true, Bool.and_eq_true] at hnote
        exact hnote.1.2
      obtain ⟨proof, -, h⟩ := Option.bind_eq_some_iff.1 h
      split_ifs at h with hsome hstatus
      · cases h
        exact absurd habsent hdecided.not_fail
      · cases h
        exact hdecided.not_unknown.elim
      · cases h
        exact hdecided.not_unknown.elim
      · exact ⟨not_not.1 hstatus, h⟩
    · obtain ⟨proof, hproof, h⟩ := Option.bind_eq_some_iff.1 h
      obtain rfl := Option.some.inj hproof
      rw [if_neg (by decide)] at h
      split_ifs at h with hstatus
      · cases h
        exact hdecided.not_unknown.elim
      · cases h
        exact hdecided.not_unknown.elim
      · exact ⟨not_not.1 hstatus, h⟩

/-! ## Soundness -/

/-- The source is of the time of the request: not after the observation and, unless the fact is about
the task itself, not before the stage was entered. -/
def InTime (request : Request) (fact : Fact) (source : Source) : Prop :=
  ∃ observedAt createdAt, instant request.observedAt = some observedAt ∧
    source.createdAt.bind instant = some createdAt ∧ createdAt ≤ observedAt ∧
      (fact.ofTask = true ∨
        ∃ stageEnteredAt, request.stageEnteredAt.bind instant = some stageEnteredAt ∧
          stageEnteredAt ≤ createdAt)

/-- A source that the policy admits for the fact is cited by the finding of the fact. -/
def Witnessed (rt : Runtime) (request : Request) (items : List JsValue) (fact : Fact) : Prop :=
  ∃ source ∈ request.sources, ∃ quote, Admits request source fact ∧ InTime request fact source ∧
    source.sourceHash = rt.textHash source.text ∧ includes source.text quote = true ∧
      ∃ item ∈ items, (item.get "fact").str? = some (js fact.code) ∧
        (item.get "state").isText (js "present") = true ∧
          ∃ reference ∈ referencesOf item,
            readCitation reference = some ⟨source.id, source.sourceHash, quote⟩

theorem inTime_of_window (hpre : preflight rt request = .ok pre) {fact : Fact} {source : Source}
    (h : inWindow pre fact source = true) : InTime request fact source := by
  obtain ⟨hobserved, hstage, -⟩ := preflight_spec hpre
  obtain ⟨createdAt, hcreated, hwindow⟩ := (Option.any_eq_true _ _).1 h
  rw [Bool.and_eq_true, Bool.or_eq_true, decide_eq_true_eq] at hwindow
  refine ⟨pre.observedAt, createdAt, hobserved, hcreated, hwindow.1, hwindow.2.imp_right fun hany => ?_⟩
  obtain ⟨stageEnteredAt, hentered, hle⟩ := (Option.any_eq_true _ _).1 hany
  exact ⟨stageEnteredAt, hstage ▸ hentered, of_decide_eq_true hle⟩

theorem parseResponse_issues {issues : List Issue} {response value : JsValue}
    (h : parseResponse rt issues response = .ok value) : parseResponse rt [] response = .ok value := by
  unfold parseResponse at h ⊢
  split at h
  · split_ifs at h ⊢
    · cases h
    · split at h
      · exact h
      · cases h
  · exact h

theorem witnessed_of_present (hpre : preflight rt request = .ok pre) {items : List JsValue}
    {findings : List Finding}
    (hgrounds : ∀ finding ∈ findings, ∃ item ∈ items, Grounds request pre item finding) {fact : Fact}
    (hpresent : hasState findings fact "present" = true) : Witnessed rt request items fact := by
  obtain ⟨finding, hfinding, hstate⟩ := List.any_eq_true.1 hpresent
  rw [Bool.and_eq_true, decide_eq_true_eq] at hstate
  obtain ⟨rfl, hstate⟩ := hstate
  obtain ⟨item, hitem, hground⟩ := hgrounds finding hfinding
  obtain ⟨witness, hcites⟩ := hground.witness hstate
  exact ⟨witness.source, hcites.mem, witness.quote, admits_of_supports hcites.supports,
    inTime_of_window hpre hcites.window, (preflight_spec hpre).2.2 _ hcites.mem, hcites.quoted,
    item, hitem, hground.fact, hground.state ▸ hstate, hcites.reference⟩

/-- An outcome that rests on the presence of facts has a witness for each of them: whatever the response
is, it cites an admitted source of the request for every required fact and has inspected them all. -/
theorem semantic_verdict_sound {response : JsValue} {ruleCode : String} {validation : Validation}
    {assessment : Assessment} (h : outcome rt request response ruleCode = some (validation, assessment))
    (hrests : RestsOnPresence validation assessment) :
    ∃ value items inspected, parseResponse rt [] response = .ok value ∧
      (value.get "findings").arr? = some items ∧
      idTexts (value.get "inspectedSourceIds") = some inspected ∧
      (∀ source ∈ request.sources, source.id ∈ inspected) ∧
      ∀ fact ∈ requiredFacts request.check, Witnessed rt request items fact := by
  obtain ⟨found, hvalid, h⟩ := Option.bind_eq_some_iff.1 h
  obtain ⟨verdict, hassess, h⟩ := Option.bind_eq_some_iff.1 h
  cases h
  obtain ⟨hstatus, hverdict⟩ := assessed_of_rests hassess hrests
  obtain ⟨pre, value, items, inspected, hpre, hvalue, hframe, hgrounds⟩ :=
    readResponse_spec (readResponse_of_validated hvalid hstatus) rfl
  obtain ⟨hitems, hinspected, hall⟩ := readFrame_spec hframe
  have hpresent := present_of_assessFindings hverdict (Decided.of_rests hrests)
  exact ⟨value, items, inspected, parseResponse_issues hvalue, hitems, hinspected, hall,
    fun fact hfact => witnessed_of_present hpre hgrounds (hpresent fact hfact)⟩

namespace Sample

def text : JsString := js "позвонить клиенту"

def digest : JsString := js "362b08da561f7c8f7c79dd5b8c5f70ae739e064baf144c073894773d20f47c83"

/-- The runtime as far as the sample goes: a normalized text in small letters and times in UTC. -/
def runtime : Runtime where
  textHash := fun s => if s = text then digest else []
  normalize := fun s => s
  toLowerCase := fun s => s
  parseDate := fun _ => none
  dateTimeFormat := fun zone => if zone = js "UTC" then some fun ms =>
    { year := CivilDate.utcYear ms, month := CivilDate.utcMonth ms + 1, day := CivilDate.utcDate ms
      hour := CivilDate.timeOfDay ms / CivilDate.hour
      minute := CivilDate.timeOfDay ms / 60_000 % 60
      second := CivilDate.timeOfDay ms / 1_000 % 60 } else none
  parseJson := fun _ => none

/-- The task of the request, in the name of its assignee. -/
def taskRequest : Request where
  schemaVersion := 1
  requestId := js "request-1"
  check := .taskAction
  dealId := js "deal-1"
  ownerId := js "manager-1"
  subjectId := some (js "task-1")
  observedAt := js "2026-09-22T20:00:00+03:00"
  stageEnteredAt := some (js "2026-09-21T10:00:00+03:00")
  timeZone := js "UTC"
  stageName := js "подготовлено"
  coverage := ⟨true, true, true⟩
  sources := [{
    id := js "source-1", sourceHash := digest, dealId := js "deal-1", ownerId := js "manager-1"
    subjectId := some (js "task-1"), assignedManagerId := some (js "manager-1"), kind := .task
    actor := .manager, actorId := some (js "manager-1"), direction := .internal, text := text
    createdAt := some (js "2026-09-22T10:00:00+03:00") }]

/-- A finding that quotes the task. -/
def finding (fact : Fact) : JsValue :=
  .obj [
    (js "fact", .str (js fact.code)),
    (js "state", .str (js "present")),
    (js "evidence", .arr [.obj [
      (js "sourceId", .str (js "source-1")),
      (js "sourceHash", .str digest),
      (js "quote", .str text)]])]

def response : JsValue :=
  .obj [
    (js "schemaVersion", .num (some 1)),
    (js "requestId", .str (js "request-1")),
    (js "check", .str (js "task_action")),
    (js "subjectId", .str (js "task-1")),
    (js "inspectedSourceIds", .arr [.str (js "source-1")]),
    (js "findings", .arr [finding .action, finding .stageRelevance])]

end Sample

/-- The task has a next step of the stage. -/
theorem semantic_verdict_sound_sample :
    ∃ value items inspected, parseResponse Sample.runtime [] Sample.response = .ok value ∧
      (value.get "findings").arr? = some items ∧
      idTexts (value.get "inspectedSourceIds") = some inspected ∧
      (∀ source ∈ Sample.taskRequest.sources, source.id ∈ inspected) ∧
      ∀ fact ∈ requiredFacts Sample.taskRequest.check, Witnessed Sample.runtime Sample.taskRequest items fact := by
  have hpass : (outcome Sample.runtime Sample.taskRequest Sample.response "task_text").map (·.2.status) =
      some .pass := by decide +kernel
  obtain ⟨⟨validation, assessment⟩, houtcome, hstatus⟩ := Option.map_eq_some_iff.1 hpass
  exact semantic_verdict_sound houtcome (Or.inl hstatus)

end AmoAnalytics.CrmControl.Semantic
