import AmoAnalytics.CrmControl.ExemptionState

/-!
# The two clocks of an exemption

The loop of `persistObservation` lets an exemption run until its deadline lies ahead no more and
obeys a later dispute; `effectiveStatus` lets it run to the deadline inclusive and knows no disputes.
An observation gives the case `EXEMPTED` exactly when the effective status of its result is `NA`,
except in these two situations.
-/

namespace AmoAnalytics.CrmControl

open Transaction

variable {env : Env} {db db' : Db}

/-! ## The turn of one result -/

section Turn

variable {input : RuleInput} {observationId : String} {observedAt : ℤ}

/-- A violation of a known case keeps it live. -/
theorem nextControlCaseState_detects (previous : CaseState) {result : RuleResult} (observedAt : ℤ)
    (h : result.detects = true) : ∃ state,
      nextControlCaseState (some previous) result observedAt = some state ∧ state ≠ .resolved := by
  have hstatus : result.status = .fail ∨ result.status = .review := by
    simpa [RuleResult.detects] using h
  unfold nextControlCaseState
  rcases hstatus with hs | hs <;> simp only [hs, RuleResult.detects] <;> split_ifs <;> simp_all

theorem persistResults_append {xs ys : List RuleResult} :
    persistResults env input observationId observedAt db (xs ++ ys) =
      persistResults env input observationId observedAt db xs >>= fun db =>
        persistResults env input observationId observedAt db ys := by
  induction xs generalizing db with
  | nil => rfl
  | cons x xs ih =>
    simp only [List.cons_append, persistResults, ih, bind_assoc]

/-- The loop keeps the cases with other active keys, the saved results, the decisions and the
observations. -/
theorem persistResults_keeps {results : List RuleResult} (h : Inv env db)
    (hobs : Drawn env db.drawn observationId)
    (hdb : persistResults env input observationId observedAt db results = .ok db') :
    (∀ c ∈ db.cases, (∀ r ∈ results, c.activeKey ≠ some (caseActiveKey input.deal.id r)) →
      c ∈ db'.cases) ∧ (∀ r ∈ db.results, r ∈ db'.results) ∧ db'.decisions = db.decisions := by
  induction results generalizing db with
  | nil => exact Except.ok.inj hdb ▸ ⟨fun _ hc _ => hc, fun _ hr => hr, rfl⟩
  | cons result results ih =>
    obtain ⟨db₁, hturn, hrest⟩ := bind_ok.1 hdb
    have hstep := h.persistResult hobs hturn
    obtain ⟨hcases, hresults, hdecisions⟩ := ih hstep.inv (hobs.mono hstep.drawn) hrest
    obtain ⟨⟨db₂, caseId⟩, hcase, hinsert⟩ := bind_ok.1 hturn
    obtain ⟨-, -, -, hkeeps⟩ := h.observeCase hobs hcase
    obtain ⟨hframe, -, -⟩ := observeCase_frame hcase
    obtain ⟨hdecisions₂, -, -⟩ := h.mem_observeCase hcase
    obtain rfl := insertResult_ok hinsert
    refine ⟨fun c hc hk => ?_, fun r hr => ?_, hdecisions.trans hdecisions₂⟩
    · refine hcases c (hkeeps c hc (hk result List.mem_cons_self)) fun r hr => ?_
      exact hk r (List.mem_cons_of_mem _ hr)
    · refine hresults r (List.mem_append_left _ ?_)
      rw [hframe]
      exact hr

/-- The turn of a violation of a known case with unchanged facts: the case takes the next state, and
the result is saved under it. -/
theorem persistResult_own {result : RuleResult} (h : Inv env db) {c : CaseRow} (hc : c ∈ db.cases)
    (hkey : c.activeKey = some (caseActiveKey input.deal.id result)) (hdetects : result.detects = true)
    (hfacts : c.assessmentHash = assessmentHash env input result)
    (hdb : persistResult env input observationId observedAt db result = .ok db') :
    ∃ state id, nextControlCaseState (some c.state) result observedAt = some state ∧
      state ≠ .resolved ∧ c.observe state (assessmentHash env input result) observationId observedAt
        (some c) ∈ db'.cases ∧ resultRow id observationId result (some c.id) ∈ db'.results := by
  obtain ⟨state, hstate, hne⟩ := nextControlCaseState_detects c.state observedAt hdetects
  have hfind := h.findActive_eq hc hkey
  have hsame : factsChanged env input result c = false := by simp [factsChanged, hfacts]
  obtain ⟨⟨db₁, caseId⟩, hcase, hinsert⟩ := bind_ok.1 hdb
  unfold observeCase previousCase at hcase
  simp only [hfind, hsame, Bool.false_eq_true, if_false, Option.map_some, hstate, upsertCase, bind_ok,
    Except.ok.injEq, Prod.mk.injEq] at hcase
  obtain ⟨⟨db₂, id⟩, ⟨rfl, rfl⟩, rfl, rfl⟩ := hcase
  obtain rfl := insertResult_ok hinsert
  refine ⟨state, _, hstate, hne, ?_, List.mem_append_right _ (List.mem_singleton_self _)⟩
  exact Table.mem_updateWhere_of_pos hc (decide_eq_true hkey)

/-- The loop with such a result: what its turn did stays. -/
theorem persistResults_own {results : List RuleResult} {result : RuleResult} (h : Inv env db)
    (hobs : Drawn env db.drawn observationId) (hfree : ∀ r ∈ results, JoinedKey.Free ':' r.ruleCode)
    (hnodup : (results.map RuleResult.key).Nodup) (hresult : result ∈ results) {c : CaseRow}
    (hc : c ∈ db.cases) (hkey : c.activeKey = some (caseActiveKey input.deal.id result))
    (hdetects : result.detects = true) (hfacts : c.assessmentHash = assessmentHash env input result)
    (hdb : persistResults env input observationId observedAt db results = .ok db') :
    ∃ state id, nextControlCaseState (some c.state) result observedAt = some state ∧
      state ≠ .resolved ∧ c.observe state (assessmentHash env input result) observationId observedAt
        (some c) ∈ db'.cases ∧ resultRow id observationId result (some c.id) ∈ db'.results := by
  obtain ⟨xs, ys, rfl⟩ := List.append_of_mem hresult
  rw [persistResults_append] at hdb
  obtain ⟨db₁, hxs, hdb⟩ := bind_ok.1 hdb
  obtain ⟨db₂, hturn, hys⟩ := bind_ok.1 hdb
  -- the other results have other keys
  have hother : ∀ r ∈ xs ++ ys, caseActiveKey input.deal.id result ≠ caseActiveKey input.deal.id r := by
    intro r hr heq
    have hmem : r ∈ xs ++ result :: ys := by
      rcases List.mem_append.1 hr with hr | hr
      · exact List.mem_append_left _ hr
      · exact List.mem_append_right _ (List.mem_cons_of_mem _ hr)
    have hkeys := caseActiveKey_inj input.deal.id (hfree result hresult) (hfree r hmem) heq
    have hperm : (result.key :: (xs ++ ys).map RuleResult.key).Nodup := by
      rw [List.map_append, List.map_cons] at hnodup
      rw [List.map_append]
      exact (List.perm_middle.nodup_iff).1 hnodup
    exact (List.nodup_cons.1 hperm).1 (hkeys ▸ List.mem_map_of_mem hr)
  have hstep := h.persistResults hobs hxs
  have hstep₂ := hstep.inv.persistResult (hobs.mono hstep.drawn) hturn
  have hc₁ := (persistResults_keeps h hobs hxs).1 c hc fun r hr => by
    rw [hkey]
    exact fun heq => hother r (List.mem_append_left _ hr) (Option.some.inj heq)
  obtain ⟨state, id, hstate, hne, hcase, hrow⟩ :=
    persistResult_own hstep.inv hc₁ hkey hdetects hfacts hturn
  obtain ⟨hcases, hresults, -⟩ := persistResults_keeps hstep₂.inv
    (hobs.mono (hstep.drawn.trans hstep₂.drawn)) hys
  refine ⟨state, id, hstate, hne, hcases _ hcase fun r hr => ?_, hresults _ hrow⟩
  have hlive : (c.observe state (assessmentHash env input result) observationId observedAt
      (some c)).activeKey = c.activeKey := by simp [CaseRow.observe, hne]
  rw [hlive, hkey]
  exact fun heq => hother r (List.mem_append_right _ hr) (Option.some.inj heq)

end Turn

/-! ## The bulk updates spare the cases of the violations -/

section Spared

variable {input : RuleInput} {observationId : String} {observedAt : ℤ}

/-- The assessment of the offers leaves the results of the other rules as they are. -/
theorem mem_of_assessOffers {snapshot : Json} {results assessed : List RuleResult}
    (h : assessOffers env input observationId snapshot results = .ok assessed) {r : RuleResult}
    (hr : r ∈ assessed) (hcode : ["offer_budget", "proposal_file"].contains r.ruleCode = false) :
    r ∈ results := by
  have hmap : ∀ f : RuleResult → RuleResult, (∀ r, (f r).ruleCode = r.ruleCode) →
      r ∈ (results.map fun r => if r.isOffer then f r else r) → r ∈ results := by
    intro f hf hr
    obtain ⟨r₀, hr₀, rfl⟩ := List.mem_map.1 hr
    by_cases hoffer : r₀.isOffer = true
    · rw [if_pos hoffer, hf] at hcode
      simp [RuleResult.isOffer] at hoffer hcode
      exact absurd hoffer.2 (by simp [hcode])
    · rwa [if_neg hoffer]
  unfold assessOffers at h
  split at h
  · split at h
    · obtain rfl := Except.ok.inj h
      exact hmap unverifiedOffer (fun _ => rfl) hr
    · split at h
      · exact nomatch h
      · obtain rfl := Except.ok.inj h
        exact hmap (assessedOffer _) (fun _ => rfl) hr
  · obtain rfl := Except.ok.inj h
    exact hr

/-- The key of a live case of the deal names the rule and the subject of the case. -/
theorem CaseRow.Coupled.key_eq {c : CaseRow} (h : c.Coupled env) {result : RuleResult}
    (hkey : c.activeKey = some (caseActiveKey input.deal.id result)) (hdeal : c.dealId = input.deal.id)
    (hcode : JoinedKey.Free ':' c.ruleCode) (hresult : JoinedKey.Free ':' result.ruleCode) :
    result.ruleCode = c.ruleCode ∧ result.subject = c.subjectId := by
  have hjoined := (h.active _ hkey).1
  unfold caseActiveKey CaseRow.key at hjoined
  rw [hdeal] at hjoined
  refine JoinedKey.colon_inj_left hresult hcode (JoinedKey.append_left_cancel (a := input.deal.id ++ ":") ?_)
  simpa only [String.append_assoc] using hjoined

theorem free_taskRuleCodes : ∀ code ∈ taskRuleCodes, JoinedKey.Free ':' code := by decide

/-- The task of a result of the rule engine is open. -/
theorem not_goneTask {c : CaseRow} (h : c.Coupled env) {result r₀ : RuleResult}
    (hkey : c.activeKey = some (caseActiveKey input.deal.id result))
    (hfree : JoinedKey.Free ':' result.ruleCode)
    (hr₀ : r₀ ∈ evaluateCrmControlDeal env.dateTimeFormat input) (hsame : r₀.key = result.key) :
    goneTask input c = false := by
  refine decide_eq_false fun ⟨hdeal, hcode, hsubject, hgone, _⟩ => hgone ?_
  have hsubjects := (h.key_eq hkey hdeal (free_taskRuleCodes _ hcode) hfree).2
  have hsame' : r₀.subject = result.subject := congrArg Prod.snd hsame
  obtain ⟨task, htask, hopen, heq⟩ := subject_of_mem_evaluate hr₀ (by rwa [hsame', hsubjects])
  rw [← hsubjects, ← hsame', ← heq]
  exact List.mem_map_of_mem (List.mem_filter.2 ⟨htask, by simp [hopen]⟩)

/-- Where the stage is declared unlimited, no rule of the task deadline finds a violation. -/
theorem not_unlimitedStage {c : CaseRow} (h : c.Coupled env) {snapshot : Json}
    {results : List RuleResult} {result : RuleResult}
    (hassess : assessOffers env input observationId snapshot
      (evaluateCrmControlDeal env.dateTimeFormat input) = .ok results)
    (hall : resolvesAllSubjects results = true) (hresult : result ∈ results)
    (hdetects : result.detects = true) (hfree : JoinedKey.Free ':' result.ruleCode)
    (hkey : c.activeKey = some (caseActiveKey input.deal.id result)) :
    unlimitedStage input c = false := by
  refine decide_eq_false fun ⟨hdeal, hcode, _⟩ => ?_
  have hrule : result.ruleCode = RuleCode.taskStageDeadline.code :=
    (h.key_eq hkey hdeal (by rw [hcode]; decide) hfree).1.trans hcode
  obtain ⟨flagged, hflagged, hflag⟩ := List.any_eq_true.1 hall
  simp only [Bool.and_eq_true, decide_eq_true_eq] at hflag
  obtain ⟨⟨hflaggedCode, hna⟩, hflag⟩ := hflag
  have hoffer : ["offer_budget", "proposal_file"].contains "task_stage_deadline" = false := by decide
  have hmem := mem_of_assessOffers hassess hflagged (by rw [hflaggedCode]; exact hoffer)
  have hstatus := stageDeadline_of_allSubjects hmem hflaggedCode hna hflag
    (mem_of_assessOffers hassess hresult (by rw [hrule]; exact hoffer)) hrule
  simp only [RuleResult.detects, Bool.or_eq_true, decide_eq_true_eq] at hdetects
  rcases hstatus with hs | hs <;> simp [hs] at hdetects

end Spared

/-! ## The two readings -/

section Readings

variable {c : CaseRow} {t : ℤ}

/-- A confirmation or an exemption of the case: the decisions that `effectiveStatus` obeys. -/
def Obeyed (c : CaseRow) (d : Decision) : Prop :=
  d.caseId = c.id ∧ (d.action = .confirm ∨ d.action = .exempt)

/-- The newest decision that `effectiveStatus` obeys. -/
structure NewestObeyed (db : Db) (c : CaseRow) (d : Decision) : Prop where
  mem : d ∈ db.decisions
  obeyed : Obeyed c d
  newest : ∀ e ∈ db.decisions, Obeyed c e → e.createdAt ≤ d.createdAt

theorem newestObeyed_congr {d : Decision} (h : db'.decisions = db.decisions) :
    NewestObeyed db' c d ↔ NewestObeyed db c d :=
  ⟨fun ⟨hm, ho, hn⟩ => ⟨h ▸ hm, ho, h ▸ hn⟩, fun ⟨hm, ho, hn⟩ => ⟨h ▸ hm, ho, h ▸ hn⟩⟩

theorem Obeyed.mem_caseDecisions {d : Decision} (h : Obeyed c d) (hd : d ∈ db.decisions) :
    d ∈ db.caseDecisions c.id := by
  refine CrmControl.mem_caseDecisions.2 ⟨hd, h.1, ?_⟩
  rcases h.2 with ha | ha <;> simp [ha, DecisionAction.isReview]

/-- The case keeps its exemption exactly when its last decision is an exemption whose deadline lies
ahead. -/
theorem Tracked.exempted_iff (h : Tracked db c) (hafter : After db c t) {result : RuleResult}
    (hdetects : result.detects = true) :
    nextControlCaseState (some c.state) result t = some .exempted ↔
      ∃ d v, (db.caseDecisions c.id).getLast? = some d ∧ d.action = .exempt ∧
        d.validUntil = some v ∧ t < v := by
  rw [nextControlCaseState_exempted_iff hdetects]
  have hfollows := h.follows
  constructor
  · rintro ⟨hstatus, v, hv, hlt⟩
    replace hstatus : c.status = .exempted := hstatus
    replace hv : c.exemptionUntil = some v := hv
    cases hlast : (db.caseDecisions c.id).getLast? with
    | none =>
      rw [hlast] at hfollows
      simp [Follows, hstatus] at hfollows
    | some d =>
      rw [hlast] at hfollows
      unfold Follows at hfollows
      cases haction : d.action <;> simp only [haction] at hfollows
      · simp [hstatus] at hfollows
      · obtain ⟨-, w, hw, hexemption, -⟩ := hfollows
        exact ⟨d, v, rfl, haction, by rw [hw, ← hexemption, hv], hlt⟩
      · simp [hstatus] at hfollows
  · rintro ⟨d, v, hlast, haction, hv, hlt⟩
    rw [hlast] at hfollows
    simp only [Follows, haction] at hfollows
    obtain ⟨-, w, hw, hexemption, hstatus⟩ := hfollows
    obtain rfl : v = w := Option.some.inj (hv.symm.trans hw)
    rcases hstatus with hs | ⟨-, o, ho, hid, hle⟩
    · exact ⟨hs, v, hexemption, hlt⟩
    · -- an observation would have found the deadline over
      have := hafter.observation o ho hid
      omega

/-- The effective status of a new result is `NA` exactly when the newest obeyed decision is an
exemption whose deadline is not over. -/
theorem effectiveStatus_na_iff {r : ResultRow} (hcase : r.caseId = some c.id)
    (hstatus : r.status = .fail ∨ r.status = .review)
    (hnew : ∀ d ∈ db.decisions, d.observationId ≠ r.observationId)
    (hafter : ∀ d ∈ db.decisions, d.caseId = c.id → d.createdAt < t)
    (hsame : ∀ d ∈ db.decisions, ∀ e ∈ db.decisions, Obeyed c d → Obeyed c e →
      d.createdAt = e.createdAt → d = e) :
    effectiveStatus db r t = .na ↔
      ∃ d v, NewestObeyed db c d ∧ d.action = .exempt ∧ d.validUntil = some v ∧ t ≤ v := by
  have hmem : ∀ d, d ∈ (db.decisionsOf r).filter (applies r t) ↔ d ∈ db.decisions ∧ Obeyed c d := by
    intro d
    rw [Db.decisionsOf, List.filter_filter, List.mem_filter]
    refine and_congr_right fun hd => ?_
    have hcaseId : r.caseId = some d.caseId ↔ d.caseId = c.id := by
      rw [hcase, Option.some.injEq, eq_comm]
    have hobs := hnew d hd
    simp only [Bool.and_eq_true, decide_eq_true_eq, hcaseId, Obeyed, and_comm (b := d.caseId = c.id)]
    refine and_congr_right fun hid => ?_
    have hle := (hafter d hd hid).le
    cases haction : d.action <;> rcases hstatus with hs | hs <;>
      simp [applies, haction, DecisionAction.isReview, hobs, hle, hs]
  have hassessed : ((db.analysisOutcome r.id).map (·.status)).getD r.status ≠ .na := by
    cases db.analysisOutcome r.id with
    | none => rcases hstatus with hs | hs <;> simp [hs]
    | some outcome => cases outcome <;> simp [AnalysisOutcome.status]
  unfold effectiveStatus
  cases hnewest : newestDecision ((db.decisionsOf r).filter (applies r t)) with
  | none =>
    refine iff_of_false hassessed ?_
    rintro ⟨d, v, hd, -⟩
    have hempty := newestDecision_none.1 hnewest
    have := (hmem d).2 ⟨hd.mem, hd.obeyed⟩
    simp [hempty] at this
  | some n =>
    obtain ⟨hn, hmax⟩ := newestDecision_some hnewest
    obtain ⟨hn, hobeyed⟩ := (hmem n).1 hn
    have hnewestObeyed : NewestObeyed db c n :=
      ⟨hn, hobeyed, fun e he hobeyed => hmax e ((hmem e).2 ⟨he, hobeyed⟩)⟩
    have huniq : ∀ d, NewestObeyed db c d → d = n := fun d hd =>
      hsame d hd.mem n hn hd.obeyed hobeyed
        (le_antisymm (hnewestObeyed.newest d hd.mem hd.obeyed) (hd.newest n hn hobeyed))
    rcases hobeyed.2 with haction | haction
    · simp only [haction]
      refine iff_of_false (by simp) ?_
      rintro ⟨d, v, hd, hd', -⟩
      rw [huniq d hd, haction] at hd'
      cases hd'
    · simp only [haction]
      constructor
      · intro h
        split_ifs at h with hvalid
        · obtain ⟨v, hv, hle⟩ := (Option.any_eq_true _ _).1 hvalid
          exact ⟨n, v, hnewestObeyed, haction, hv, of_decide_eq_true hle⟩
        · exact absurd h hassessed
      · rintro ⟨d, v, hd, -, hv, hle⟩
        rw [huniq d hd] at hv
        rw [if_pos (by simp [hv, hle])]

/-- The two readings of the decisions differ: the newest confirmation or exemption is an exemption
until this very instant, or one that still runs and was disputed later. -/
def ClocksDiffer (db : Db) (c : CaseRow) (t : ℤ) : Prop :=
  ∃ d v, NewestObeyed db c d ∧ d.action = .exempt ∧ d.validUntil = some v ∧
    (t = v ∨ t < v ∧ ∃ e ∈ db.decisions, e.caseId = c.id ∧ e.action = .dispute ∧
      d.createdAt < e.createdAt)

end Readings

/-- They agree on a tracked case exactly when they do not differ in one of the two situations. -/
theorem readings_agree_iff {c : CaseRow} {t : ℤ} (h : Tracked db c) :
    ((∃ d v, (db.caseDecisions c.id).getLast? = some d ∧ d.action = .exempt ∧ d.validUntil = some v ∧
        t < v) ↔
      ∃ d v, NewestObeyed db c d ∧ d.action = .exempt ∧ d.validUntil = some v ∧ t ≤ v) ↔
      ¬ ClocksDiffer db c t := by
  have hlast : ∀ {last : Decision}, (db.caseDecisions c.id).getLast? = some last →
      last ∈ db.caseDecisions c.id := fun h => List.mem_of_getLast? h
  -- an exemption that is the last decision is the newest obeyed one
  have hobeyed : ∀ {last : Decision}, (db.caseDecisions c.id).getLast? = some last →
      last.action = .exempt → NewestObeyed db c last := fun hl haction =>
    ⟨(mem_caseDecisions.1 (hlast hl)).1, ⟨(mem_caseDecisions.1 (hlast hl)).2.1, Or.inr haction⟩,
      fun e he hobeyed => h.le_last hl (hobeyed.mem_caseDecisions he)⟩
  have huniq : ∀ {d e : Decision}, NewestObeyed db c d → NewestObeyed db c e → d = e := fun hd he =>
    h.eq_of_time (hd.obeyed.mem_caseDecisions hd.mem) (he.obeyed.mem_caseDecisions he.mem)
      (le_antisymm (he.newest _ hd.mem hd.obeyed) (hd.newest _ he.mem he.obeyed))
  constructor
  · rintro hagree ⟨d, v, hd, haction, hv, hdiffer⟩
    obtain ⟨l, w, hl, hlaction, hw, hlt⟩ := hagree.2 ⟨d, v, hd, haction, hv, by omega⟩
    obtain rfl := huniq hd (hobeyed hl hlaction)
    obtain rfl : v = w := Option.some.inj (hv.symm.trans hw)
    rcases hdiffer with rfl | ⟨-, e, he, hecase, heaction, hlater⟩
    · exact lt_irrefl _ hlt
    · have hemem : e ∈ db.caseDecisions c.id :=
        mem_caseDecisions.2 ⟨he, hecase, by simp [heaction, DecisionAction.isReview]⟩
      have := h.le_last hl hemem
      omega
  · intro hagree
    constructor
    · rintro ⟨l, v, hl, haction, hv, hlt⟩
      exact ⟨l, v, hobeyed hl haction, haction, hv, hlt.le⟩
    · rintro ⟨d, v, hd, haction, hv, hle⟩
      have hne : t ≠ v := fun heq => hagree ⟨d, v, hd, haction, hv, Or.inl heq⟩
      have hlt : t < v := lt_of_le_of_ne hle hne
      have hmem := hd.obeyed.mem_caseDecisions hd.mem
      obtain ⟨l, hl⟩ : ∃ l, (db.caseDecisions c.id).getLast? = some l :=
        ⟨_, List.getLast?_eq_some_getLast (List.ne_nil_of_mem hmem)⟩
      obtain ⟨hlmem, hlcase, hlreview⟩ := mem_caseDecisions.1 (hlast hl)
      by_cases heq : d = l
      · exact ⟨d, v, heq ▸ hl, haction, hv, hlt⟩
      · -- the last decision is a later one that is not obeyed: a dispute
        have hlater : d.createdAt < l.createdAt :=
          lt_of_le_of_ne (h.le_last hl hmem) fun htime => heq (h.eq_of_time hmem (hlast hl) htime)
        have hnot : ¬ Obeyed c l := fun hobey => absurd (hd.newest l hlmem hobey) (by omega)
        refine absurd ⟨d, v, hd, haction, hv, Or.inr ⟨hlt, l, hlmem, hlcase, ?_, hlater⟩⟩ hagree
        cases hlaction : l.action <;> simp_all [Obeyed, DecisionAction.isReview]

/-! ## The theorem -/

/-- What a saved observation leaves of the case of a violation with unchanged facts. -/
theorem persistObservation_own (h : Inv env db) {args : PersistArgs} {results : List RuleResult}
    {o : Observation} (hrules : args.results = evaluateCrmControlDeal env.dateTimeFormat args.input)
    (hassess : assessOffers env args.input (env.uuid db.drawn) args.snapshot args.results = .ok results)
    (hnew : db.savedObservation args.runId args.input.deal.id = none)
    (hdb : persistObservation env args db = .ok (db', o)) {result : RuleResult}
    (hresult : result ∈ results) (hdetects : result.detects = true) {c : CaseRow} (hc : c ∈ db.cases)
    (hkey : c.activeKey = some (caseActiveKey args.input.deal.id result))
    (hfacts : c.assessmentHash = assessmentHash env args.input result) :
    o.id = env.uuid db.drawn ∧ args.input.observedAt = some o.observedAt ∧
      db'.decisions = db.decisions ∧ ∃ state id,
        nextControlCaseState (some c.state) result o.observedAt = some state ∧
        c.observe state (assessmentHash env args.input result) o.id o.observedAt (some c) ∈ db'.cases ∧
        resultRow id o.id result (some c.id) ∈ db'.results := by
  rcases persistObservation_ok hdb with ⟨-, hsaved⟩ | ⟨results', t, hassess', -, -, hobs, hsave⟩
  · exact nomatch hnew.symm.trans hsaved
  obtain rfl : results = results' := Except.ok.inj (hassess.symm.trans hassess')
  obtain ⟨rfl, db₁, db₂, hinsert, hloop, hevidence⟩ := saveObservation_ok hsave
  have hkeys := assessOffers_keys hassess
  -- the results have the keys of the rule engine
  have hruled : ∀ r ∈ results, ∃ r₀ ∈ evaluateCrmControlDeal env.dateTimeFormat args.input,
      r₀.key = r.key := by
    intro r hr
    have hmem : r.key ∈ args.results.map RuleResult.key := hkeys ▸ List.mem_map_of_mem hr
    rw [hrules] at hmem
    exact List.mem_map.1 hmem
  have hfree : ∀ r ∈ results, JoinedKey.Free ':' r.ruleCode := by
    intro r hr
    obtain ⟨r₀, hr₀, hkey₀⟩ := hruled r hr
    obtain ⟨code, hcode⟩ := exists_code_of_mem_evaluate hr₀
    have : r.ruleCode = code.code := (congrArg Prod.fst hkey₀).symm.trans hcode
    exact this ▸ code.free_code
  have hinv₁ := h.insertObservation hinsert rfl
  obtain rfl := insertObservation_ok hinsert
  obtain ⟨state, id, hstate, hne, hcase, hrow⟩ := persistResults_own hinv₁ (drawn_next db.drawn) hfree
    (by rw [hkeys, hrules]; exact nodup_evaluate _ _) hresult hc hkey hdetects hfacts hloop
  obtain ⟨-, -, hdecisions⟩ := persistResults_keeps hinv₁ (drawn_next db.drawn) hloop
  have hinv₂ := (hinv₁.persistResults (drawn_next db.drawn) hloop).inv
  -- the case is still live, so neither bulk update selects it
  set c' := c.observe state (assessmentHash env args.input result) (env.uuid db.drawn) t (some c) with hc'
  have hlive : c'.activeKey = some (caseActiveKey args.input.deal.id result) := by
    rw [hc', ← hkey]
    simp [CaseRow.observe, hne]
  have hcoupled := hinv₂.coupled c' hcase
  have hgone : c' ∈ (resolveGoneTasks args.input (env.uuid db.drawn) t db₂).cases := by
    unfold resolveGoneTasks
    split_ifs
    · obtain ⟨r₀, hr₀, hkey₀⟩ := hruled result hresult
      exact Table.mem_updateWhere_of_not hcase
        (not_goneTask hcoupled hlive (hfree result hresult) hr₀ hkey₀)
    · exact hcase
  have hunlimited : c' ∈ (resolveUnlimited args.input results (env.uuid db.drawn) t
      (resolveGoneTasks args.input (env.uuid db.drawn) t db₂)).cases := by
    unfold resolveUnlimited
    split_ifs with hall
    · rw [Bool.and_eq_true] at hall
      rw [hrules] at hassess
      exact Table.mem_updateWhere_of_not hgone
        (not_unlimitedStage hcoupled hassess hall.2 hresult hdetects (hfree result hresult) hlive)
    · exact hgone
  have hbulk : (resolveUnlimited args.input results (env.uuid db.drawn) t
      (resolveGoneTasks args.input (env.uuid db.drawn) t db₂)).results = db₂.results ∧
      (resolveUnlimited args.input results (env.uuid db.drawn) t
        (resolveGoneTasks args.input (env.uuid db.drawn) t db₂)).decisions = db₂.decisions := by
    unfold resolveUnlimited resolveGoneTasks
    split_ifs <;> exact ⟨rfl, rfl⟩
  have hlast : db'.cases = (resolveUnlimited args.input results (env.uuid db.drawn) t
        (resolveGoneTasks args.input (env.uuid db.drawn) t db₂)).cases ∧
      db'.results = db₂.results ∧ db'.decisions = db₂.decisions := by
    unfold requestEvidence at hevidence
    split_ifs at hevidence
    · obtain rfl := insertEvidence_ok hevidence
      exact ⟨rfl, hbulk.1, hbulk.2⟩
    · obtain rfl := Except.ok.inj hevidence
      exact ⟨rfl, hbulk.1, hbulk.2⟩
  exact ⟨rfl, hobs, hlast.2.2.trans hdecisions, state, id, hstate, by rw [hlast.1]; exact hunlimited,
    by rw [hlast.2.1]; exact hrow⟩

/-- **The two clocks.** While the clock moves forward, an observation of a violation whose case is
live and whose facts are unchanged writes `EXEMPTED` to the case if and only if the effective status
of the result is `NA`, precisely when the two readings of the decisions do not differ. -/
theorem exemption_clocks (hreach : Run.ReachableVia (step env) ClockForward {} db) {args : PersistArgs}
    (hclock : ClockForward db (.persist args))
    (hrules : args.results = evaluateCrmControlDeal env.dateTimeFormat args.input)
    {results : List RuleResult}
    (hassess : assessOffers env args.input (env.uuid db.drawn) args.snapshot args.results = .ok results)
    (hnew : db.savedObservation args.runId args.input.deal.id = none) {o : Observation}
    (hdb : persistObservation env args db = .ok (db', o)) {result : RuleResult}
    (hresult : result ∈ results) (hdetects : result.detects = true) {c : CaseRow} (hc : c ∈ db.cases)
    (hkey : c.activeKey = some (caseActiveKey args.input.deal.id result))
    (hfacts : c.assessmentHash = assessmentHash env args.input result) :
    ∃ c' ∈ db'.cases, c'.id = c.id ∧ ∃ r ∈ db'.results, r.observationId = o.id ∧
      r.caseId = some c.id ∧ r.ruleCode = result.ruleCode ∧ r.subjectId = result.subject ∧
      r.status = result.status ∧
      ((c'.status = .exempted ↔ effectiveStatus db' r o.observedAt = .na) ↔
        ¬ ClocksDiffer db c o.observedAt) := by
  obtain ⟨h, hclocked⟩ := clocked_of_reachable hreach
  obtain ⟨hid, hobs, hdecisions, state, id, hstate, hcase, hrow⟩ :=
    persistObservation_own h hrules hassess hnew hdb hresult hdetects hc hkey hfacts
  have htracked := hclocked c hc (by simp [hkey])
  have hafter : After db c o.observedAt := by
    refine hclock o.observedAt hobs result.key ?_ c hc hkey
    rw [← assessOffers_keys hassess]
    exact List.mem_map_of_mem hresult
  refine ⟨_, hcase, CaseRow.observe_id _ _ _ _, _, hrow, rfl, rfl, rfl, rfl, rfl, ?_⟩
  rw [← readings_agree_iff htracked]
  refine iff_congr ?_ ?_
  · rw [← htracked.exempted_iff hafter hdetects, hstate, Option.some.injEq]
    unfold CaseRow.observe
    split_ifs <;> rfl
  · have hstatus : result.status = .fail ∨ result.status = .review := by
      simpa [RuleResult.detects] using hdetects
    have hfresh : ∀ d ∈ db.decisions, d.observationId ≠ o.id := fun d hd => by
      rw [hid]
      exact (h.decision_drawn d hd).2.ne
    rw [effectiveStatus_na_iff (c := c) rfl hstatus (by rw [hdecisions]; exact hfresh)
      (by rw [hdecisions]; exact hafter.decision) ?_]
    · simp only [newestObeyed_congr hdecisions]
    · rw [hdecisions]
      exact fun d hd e he hd' he' htime =>
        htracked.eq_of_time (hd'.mem_caseDecisions hd) (he'.mem_caseDecisions he) htime

/-! ## A run where they agree, and one where they differ -/

namespace Sample

/-- An empty task is found, and exempted until 5000. -/
def detection : List Op := [.queue [run "run1" 1000], ruled "run1" 1000 [task ""]]

def detected : Db := (Run.run (step environment) {} detection).getD {}

def exemption : Op :=
  .decide owner (uuid 5) ⟨.exempt, "согласовано", some 5000⟩ ⟨2000, 2000, 2000⟩

/-- The store before the next observation, at the given time. -/
def exempted (observedAt : ℤ) : Db :=
  (Run.run (step environment) detected [exemption, .queue [run "run2" observedAt]]).getD {}

theorem detected_reachable : Run.ReachableVia (step environment) ClockForward {} detected := by
  refine ⟨detection, ⟨trivial, fun db hdb => ⟨?_, fun _ _ => trivial⟩⟩, run_eq_some _ _ _⟩
  obtain rfl := Option.some.inj hdb
  exact fun _ _ _ _ c hc => nomatch hc

theorem exempted_reachable (observedAt : ℤ) :
    Run.ReachableVia (step environment) ClockForward {} (exempted observedAt) := by
  have hobserved : ∀ o ∈ detected.observations, o.observedAt ≤ 2000 := by decide +kernel
  refine detected_reachable.trans ⟨[exemption, .queue [run "run2" observedAt]], ⟨?_, fun _ _ => ⟨trivial, fun _ _ => trivial⟩⟩,
    run_eq_some _ _ _⟩
  exact fun _ _ _ o ho _ => hobserved o ho

/-- The next observation finds the same empty task. -/
def again (observedAt : ℤ) : PersistArgs :=
  ⟨"run2", input [task ""] observedAt,
    evaluateCrmControlDeal environment.dateTimeFormat (input [task ""] observedAt), .null, labels,
    observedAt⟩

def assessedAgain (observedAt : ℤ) : List RuleResult :=
  (assessOffers environment (again observedAt).input (uuid (exempted observedAt).drawn)
    (again observedAt).snapshot (again observedAt).results).toOption.getD []

def textAgain (observedAt : ℤ) : RuleResult := (assessedAgain observedAt).getD 4 (textResult (task "") .fail)

def exemptedCase (observedAt : ℤ) : CaseRow :=
  (exempted observedAt).cases.getD 0
    (newCase "" (input [] 0) (textResult (task "") .fail) .opened "" "" 0)

/-- The store and the observation after it. -/
def observedAgain (observedAt : ℤ) : Db × Observation :=
  (persistObservation environment (again observedAt) (exempted observedAt)).toOption.getD
    ({}, observationRow environment (again observedAt) [] "" observedAt)

theorem clockForward_again {observedAt : ℤ} (h : 2000 < observedAt)
    (hobservations : ∀ o ∈ (exempted observedAt).observations, o.observedAt ≤ 2000)
    (hdecisions : ∀ d ∈ (exempted observedAt).decisions, d.createdAt ≤ 2000) :
    ClockForward (exempted observedAt) (.persist (again observedAt)) := by
  rintro t ht - - c - -
  obtain rfl : observedAt = t := Option.some.inj ht
  exact ⟨fun o ho _ => (hobservations o ho).trans h.le, fun d hd _ => (hdecisions d hd).trans_lt h⟩

theorem assessOffers_again {observedAt : ℤ}
    (h : (assessOffers environment (again observedAt).input (uuid (exempted observedAt).drawn)
      (again observedAt).snapshot (again observedAt).results).isOk = true) :
    assessOffers environment (again observedAt).input (environment.uuid (exempted observedAt).drawn)
      (again observedAt).snapshot (again observedAt).results = .ok (assessedAgain observedAt) :=
  eq_ok_of_isOk h []

theorem persistObservation_again {observedAt : ℤ}
    (h : (persistObservation environment (again observedAt) (exempted observedAt)).isOk = true) :
    persistObservation environment (again observedAt) (exempted observedAt) =
      .ok ((observedAgain observedAt).1, (observedAgain observedAt).2) :=
  eq_ok_of_isOk h _

theorem textAgain_mem {observedAt : ℤ} (h : 4 < (assessedAgain observedAt).length) :
    textAgain observedAt ∈ assessedAgain observedAt := by
  rw [textAgain, List.getD_eq_getElem _ _ h]
  exact List.getElem_mem h

theorem exemptedCase_mem {observedAt : ℤ} (h : 0 < (exempted observedAt).cases.length) :
    exemptedCase observedAt ∈ (exempted observedAt).cases := by
  rw [exemptedCase, List.getD_eq_getElem _ _ h]
  exact List.getElem_mem h

end Sample

theorem exemption_clocks_sample :
    ∃ c' ∈ (Sample.observedAgain 3000).1.cases, c'.id = (Sample.exemptedCase 3000).id ∧
      ∃ r ∈ (Sample.observedAgain 3000).1.results, r.observationId = (Sample.observedAgain 3000).2.id ∧
        r.caseId = some (Sample.exemptedCase 3000).id ∧ r.ruleCode = (Sample.textAgain 3000).ruleCode ∧
        r.subjectId = (Sample.textAgain 3000).subject ∧ r.status = (Sample.textAgain 3000).status ∧
        ((c'.status = .exempted ↔ effectiveStatus (Sample.observedAgain 3000).1 r
            (Sample.observedAgain 3000).2.observedAt = .na) ↔
          ¬ ClocksDiffer (Sample.exempted 3000) (Sample.exemptedCase 3000)
            (Sample.observedAgain 3000).2.observedAt) :=
  exemption_clocks (Sample.exempted_reachable 3000)
    (Sample.clockForward_again (by decide) (by decide +kernel) (by decide +kernel)) rfl
    (Sample.assessOffers_again (by decide +kernel)) (Option.isNone_iff_eq_none.1 (by decide +kernel))
    (Sample.persistObservation_again (by decide +kernel)) (Sample.textAgain_mem (by decide +kernel))
    (by decide +kernel) (Sample.exemptedCase_mem (by decide +kernel)) (by decide +kernel)
    (by decide +kernel)

/-- At the deadline itself the effective status is still `NA`, and the case is open again. -/
theorem clocks_differ_at_deadline :
    ¬ ∀ (env : Env) (db db' : Db) (args : PersistArgs) (results : List RuleResult) (o : Observation)
      (result : RuleResult) (c : CaseRow), Run.ReachableVia (step env) ClockForward {} db →
      ClockForward db (.persist args) →
      args.results = evaluateCrmControlDeal env.dateTimeFormat args.input →
      assessOffers env args.input (env.uuid db.drawn) args.snapshot args.results = .ok results →
      db.savedObservation args.runId args.input.deal.id = none →
      persistObservation env args db = .ok (db', o) → result ∈ results → result.detects = true →
      c ∈ db.cases → c.activeKey = some (caseActiveKey args.input.deal.id result) →
      c.assessmentHash = assessmentHash env args.input result →
      ∀ c' ∈ db'.cases, c'.id = c.id → ∀ r ∈ db'.results, r.observationId = o.id →
        r.caseId = some c.id → (c'.status = .exempted ↔ effectiveStatus db' r o.observedAt = .na) := by
  intro h
  have hagree := h Sample.environment (Sample.exempted 5000) _ (Sample.again 5000)
    (Sample.assessedAgain 5000) (Sample.observedAgain 5000).2 (Sample.textAgain 5000) (Sample.exemptedCase 5000)
    (Sample.exempted_reachable 5000)
    (Sample.clockForward_again (by decide) (by decide +kernel) (by decide +kernel)) rfl
    (Sample.assessOffers_again (by decide +kernel)) (Option.isNone_iff_eq_none.1 (by decide +kernel))
    (Sample.persistObservation_again (by decide +kernel)) (Sample.textAgain_mem (by decide +kernel))
    (by decide +kernel) (Sample.exemptedCase_mem (by decide +kernel)) (by decide +kernel)
    (by decide +kernel)
  have hfails : ¬ ∀ c' ∈ (Sample.observedAgain 5000).1.cases, c'.id = (Sample.exemptedCase 5000).id →
      ∀ r ∈ (Sample.observedAgain 5000).1.results, r.observationId = (Sample.observedAgain 5000).2.id →
        r.caseId = some (Sample.exemptedCase 5000).id →
        (c'.status = .exempted ↔ effectiveStatus (Sample.observedAgain 5000).1 r
          (Sample.observedAgain 5000).2.observedAt = .na) := by decide +kernel
  exact hfails hagree

end AmoAnalytics.CrmControl
