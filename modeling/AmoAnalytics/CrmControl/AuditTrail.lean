import AmoAnalytics.CrmControl.ClosedCases

/-!
# The audit trail

What the service has recorded it keeps: observations, results, decisions and requests for evidence are only added to,
and a case keeps its identity. The one field of a result that is written later is its link to a case, once.
-/

namespace AmoAnalytics.CrmControl

open Transaction

variable {env : Env} {db db' : Db}

/-- A result without its case. -/
def ResultRow.unlinked (r : ResultRow) : ResultRow := { r with caseId := none }

/-- What a case is about. -/
def CaseRow.identity (c : CaseRow) : String × String × String × String × String :=
  (c.id, c.caseKey, c.dealId, c.ruleCode, c.subjectId)

/-- What a request for evidence is about; the capture writes its other fields. -/
def Evidence.request (e : Evidence) : String × String × String := (e.id, e.observationId, e.sourceUrl)

structure Recorded (db db' : Db) : Prop where
  observations : db.observations <+: db'.observations
  results : db.results.map ResultRow.unlinked <+: db'.results.map ResultRow.unlinked
  linked : ∀ r ∈ db.results, r.caseId ≠ none → r ∈ db'.results
  cases : db.cases.map CaseRow.identity <+: db'.cases.map CaseRow.identity
  decisions : db.decisions <+: db'.decisions
  evidence : db.evidence.map Evidence.request <+: db'.evidence.map Evidence.request

namespace Recorded

theorem refl (db : Db) : Recorded db db :=
  ⟨List.prefix_rfl, List.prefix_rfl, fun _ hr _ => hr, List.prefix_rfl, List.prefix_rfl, List.prefix_rfl⟩

theorem trans {db'' : Db} (h : Recorded db db') (h' : Recorded db' db'') : Recorded db db'' where
  observations := h.observations.trans h'.observations
  results := h.results.trans h'.results
  linked := fun r hr hne => h'.linked r (h.linked r hr hne) hne
  cases := h.cases.trans h'.cases
  decisions := h.decisions.trans h'.decisions
  evidence := h.evidence.trans h'.evidence

/-! ## Statements -/

theorem updateCases (db : Db) (p : CaseRow → Bool) {f : CaseRow → CaseRow}
    (hf : ∀ c, (f c).identity = c.identity) : Recorded db (db.updateCases p f) :=
  { refl db with
    cases := (Table.map_updateWhere CaseRow.identity fun c _ => hf c) ▸ List.prefix_rfl }

theorem insertCase {row : CaseRow} (h : db.insertCase row = .ok db') : Recorded db db' := by
  obtain ⟨rfl, -, -⟩ := insertCase_ok h
  exact { refl db with cases := by rw [List.map_append]; exact List.prefix_append _ _ }

theorem insertObservation {row : Observation} (h : db.insertObservation row = .ok db') : Recorded db db' := by
  obtain rfl := insertObservation_ok h
  exact { refl db with observations := List.prefix_append _ _ }

theorem insertResult {row : ResultRow} (h : db.insertResult row = .ok db') : Recorded db db' := by
  obtain rfl := insertResult_ok h
  exact { refl db with
    results := by rw [List.map_append]; exact List.prefix_append _ _
    linked := fun r hr _ => List.mem_append_left _ hr }

theorem insertEvidence {row : Evidence} (h : db.insertEvidence row = .ok db') : Recorded db db' := by
  obtain rfl := insertEvidence_ok h
  exact { refl db with evidence := by rw [List.map_append]; exact List.prefix_append _ _ }

theorem insertDecision (db : Db) (row : Decision) : Recorded db (db.insertDecision row) :=
  { refl db with decisions := List.prefix_append _ _ }

/-- Only a result without a case is linked. -/
theorem linkResult (db : Db) (resultId caseId : String) : Recorded db (linkResult resultId caseId db) :=
  { refl db with
    results := (Table.map_updateWhere (p := fun r => r.id = resultId ∧ r.caseId = none)
      (f := fun r => { r with caseId := some caseId }) ResultRow.unlinked fun _ _ => rfl) ▸ List.prefix_rfl
    linked := fun _ hr hne => Table.mem_updateWhere_of_not hr (by simp [hne]) }

/-! ## Operations -/

theorem observeCase {input : RuleInput} {observationId : String} {observedAt : ℤ} {result : RuleResult}
    {caseId : Option String} (h : observeCase env input observationId observedAt db result = .ok (db', caseId)) :
    Recorded db db' := by
  have hprevious : Recorded db (previousCase env input result db).1 := by
    unfold previousCase
    split
    · exact refl db
    · split_ifs
      · exact updateCases db _ fun _ => rfl
      · exact refl db
  unfold CrmControl.observeCase at h
  dsimp only at h
  split at h
  · cases h
    exact hprevious
  · obtain ⟨⟨db₁, id⟩, hupsert, h⟩ := bind_ok.1 h
    cases h
    refine hprevious.trans ?_
    unfold upsertCase at hupsert
    dsimp only at hupsert
    split at hupsert
    · cases hupsert
      exact updateCases _ _ fun c => by unfold CaseRow.observe; split_ifs <;> rfl
    · obtain ⟨db₂, hinsert, hupsert⟩ := bind_ok.1 hupsert
      cases hupsert
      exact insertCase hinsert

theorem persistResults {input : RuleInput} {observationId : String} {observedAt : ℤ} {results : List RuleResult}
    (h : persistResults env input observationId observedAt db results = .ok db') : Recorded db db' := by
  induction results generalizing db with
  | nil => exact Except.ok.inj h ▸ refl db
  | cons result results ih =>
    obtain ⟨db₁, hturn, hrest⟩ := bind_ok.1 h
    obtain ⟨⟨db₂, caseId⟩, hcase, hinsert⟩ := bind_ok.1 hturn
    exact ((observeCase hcase).trans (insertResult hinsert)).trans (ih hrest)

theorem persistObservation {args : PersistArgs} {o : Observation}
    (h : persistObservation env args db = .ok (db', o)) : Recorded db db' := by
  rcases persistObservation_ok h with ⟨rfl, -⟩ | ⟨results, observedAt, -, -, -, -, hsave⟩
  · exact refl _
  obtain ⟨-, db₁, db₂, hinsert, hresults, hevidence⟩ := saveObservation_ok hsave
  have hresolve (db : Db) (p : CaseRow → Bool) (id : String) : Recorded db (db.updateCases p (·.resolve observedAt id)) :=
    updateCases db p fun _ => rfl
  have hgone (id : String) : Recorded db₂ (resolveGoneTasks args.input id observedAt db₂) := by
    unfold resolveGoneTasks
    split_ifs
    · exact hresolve _ _ _
    · exact refl _
  have hunlimited (id : String) (db : Db) : Recorded db (resolveUnlimited args.input results id observedAt db) := by
    unfold resolveUnlimited
    split_ifs
    · exact hresolve _ _ _
    · exact refl _
  refine ((insertObservation hinsert).trans (persistResults hresults)).trans
    (((hgone (env.uuid db.drawn)).trans (hunlimited (env.uuid db.drawn) _)).trans ?_)
  unfold requestEvidence at hevidence
  split_ifs at hevidence
  · exact insertEvidence hevidence
  · exact Except.ok.inj hevidence ▸ refl _

theorem reviewResult {access : Access} {observationId resultId : String} {body : ManualReviewInput} {now : ℤ}
    (h : Service.reviewResult env access observationId resultId body now db = .ok db') : Recorded db db' := by
  obtain ⟨o, result, db₁, caseId, decision, -, -, hcase, -, -, -, hlast⟩ := reviewResult_ok h
  have hensured : Recorded db db₁ := by
    unfold ensureCase at hcase
    split at hcase
    · cases hcase
      exact refl _
    · obtain ⟨db₂, hinsert, hcase⟩ := bind_ok.1 hcase
      cases hcase
      exact (insertCase hinsert).trans (linkResult _ _ _)
  refine (hensured.trans (insertDecision db₁ decision)).trans ?_
  rcases hlast with rfl | hevidence
  · exact refl _
  · unfold ensureEvidenceForObservation at hevidence
    split_ifs at hevidence
    · exact Except.ok.inj hevidence ▸ refl _
    · exact insertEvidence hevidence

theorem step {op : Op} (h : step env db op = some db') : Recorded db db' := by
  cases op with
  | persist args =>
    obtain rfl := Option.some.inj h
    refine commit_induction (refl db) fun t ht => ?_
    obtain ⟨⟨t', o⟩, hpersist, rfl⟩ := map_ok.1 ht
    exact persistObservation hpersist
  | decide access id body clock =>
    obtain rfl := Option.some.inj h
    refine commit_induction (refl db) fun t ht => ?_
    obtain ⟨item, o, -, -, -, rfl⟩ := decide_ok ht
    exact (updateCases db _ (f := (·.decided body clock.confirmedAt)) fun _ => rfl).trans (insertDecision _ _)
  | review access observationId resultId body now =>
    obtain rfl := Option.some.inj h
    exact commit_induction (refl db) fun t ht => reviewResult ht
  | queue runs =>
    obtain rfl := Option.some.inj h
    exact { refl db with }
  | analyse outcomes =>
    obtain rfl := Option.some.inj h
    exact { refl db with }

end Recorded

/-- Along every run of the service, whatever succeeds, fails or is repeated, records are only added: no observation,
decision or request for evidence is changed or removed, a result changes only from no case to one, and a case stays
the case of its deal, rule and subject. -/
theorem records_append_only (env : Env) (h : Run.Reachable (step env) db db') : Recorded db db' :=
  h.stable (I := fun _ => True) trivial (fun db _ => .refl db) (fun _ _ _ => .trans)
    fun _ _ _ _ _ hstep => ⟨trivial, .step hstep⟩

theorem records_append_only_sample : Recorded Sample.before Sample.afterSweeping :=
  records_append_only Sample.environment (.single (a := Sample.sweeping) trivial rfl)

end AmoAnalytics.CrmControl
