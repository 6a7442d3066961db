import AmoAnalytics.CrmControl.CaseInvariant
import AmoAnalytics.CrmControl.RuleKeys

/-!
# Case keys

With results of the rule engine a case that no manual review created holds the key of its deal, rule
and subject exactly while it is live, and no observation runs into a unique index: the engine speaks
once for each rule and subject, and the identifier of the observation is new.
-/

namespace AmoAnalytics.CrmControl

open Transaction

variable {env : Env} {db db' : Db}

/-- Observations carry the results of the rule engine for their input. -/
def FromRules (env : Env) (_ : Db) : Op → Prop
  | .persist args => args.results = evaluateCrmControlDeal env.dateTimeFormat args.input
  | _ => True

/-! ## The assessment of offers keeps the keys -/

theorem unverifiedOffer_key (result : RuleResult) : (unverifiedOffer result).key = result.key := rfl

theorem assessedOffer_key (assessment : OfferAssessment) (result : RuleResult) :
    (assessedOffer assessment result).key = result.key := rfl

theorem assessOffers_keys {input : RuleInput} {observationId : String} {snapshot : Json}
    {results assessed : List RuleResult}
    (h : assessOffers env input observationId snapshot results = .ok assessed) :
    assessed.map RuleResult.key = results.map RuleResult.key := by
  have hmap : ∀ f : RuleResult → RuleResult, (∀ r, (f r).key = r.key) →
      (results.map fun r => if r.isOffer then f r else r).map RuleResult.key =
        results.map RuleResult.key := by
    intro f hf
    rw [List.map_map]
    refine List.map_congr_left fun r _ => ?_
    simp only [Function.comp_apply]
    split_ifs
    · exact hf r
    · rfl
  unfold assessOffers at h
  split at h
  · split at h
    · obtain rfl := Except.ok.inj h
      exact hmap _ unverifiedOffer_key
    · split at h
      · exact nomatch h
      · obtain rfl := Except.ok.inj h
        exact hmap _ (assessedOffer_key _)
  · obtain rfl := Except.ok.inj h
    rfl

/-! ## No unique index is violated -/

section Loop

variable {input : RuleInput} {observationId : String}

/-- The case key that the loop gives a new case of the result. -/
def newCaseKey (input : RuleInput) (observationId : String) (result : RuleResult) : String :=
  caseActiveKey input.deal.id result ++ ":" ++ observationId

/-- The results still to come have no row and no case of this observation yet. -/
structure Fresh (input : RuleInput) (observationId : String) (db : Db) (todo : List RuleResult) : Prop where
  result : ∀ r ∈ db.results, r.observationId = observationId → ∀ result ∈ todo,
    (r.ruleCode, r.subjectId) ≠ result.key
  case : ∀ c ∈ db.cases, ∀ result ∈ todo, c.caseKey ≠ newCaseKey input observationId result

theorem caseActiveKey_inj (deal : String) {r r' : RuleResult} (hr : JoinedKey.Free ':' r.ruleCode)
    (hr' : JoinedKey.Free ':' r'.ruleCode) (h : caseActiveKey deal r = caseActiveKey deal r') :
    r.key = r'.key := by
  unfold caseActiveKey at h
  have hrest : r.ruleCode ++ ":" ++ r.subject = r'.ruleCode ++ ":" ++ r'.subject := by
    refine JoinedKey.append_left_cancel (a := deal ++ ":") ?_
    simpa only [String.append_assoc] using h
  obtain ⟨hcode, hsubject⟩ := JoinedKey.colon_inj_left hr hr' hrest
  exact Prod.ext hcode hsubject

/-- A new identifier makes every key of the observation new. -/
theorem Inv.fresh (h : Inv env db) {db₁ : Db} (hresults : db₁.results = db.results)
    (hcases : db₁.cases = db.cases) (todo : List RuleResult) :
    Fresh input (env.uuid db.drawn) db₁ todo where
  result r hr hobs := by
    rw [hresults] at hr
    exact absurd hobs (h.result_drawn r hr).observation.ne
  case c hc result _ heq := by
    rw [hcases] at hc
    obtain ⟨a, s, hkey, hs⟩ := h.caseKey_drawn c hc
    rw [hkey] at heq
    exact hs.ne (JoinedKey.colon_inj_right hs.free (env.uuid_free _) heq).2

/-- What the first half of a turn may do to the tables: cases keep their keys, and at most one case
with the key of the result is new. -/
theorem observeCase_frame {observedAt : ℤ} {result : RuleResult} {caseId : Option String}
    (h : observeCase env input observationId observedAt db result = .ok (db', caseId)) :
    db'.results = db.results ∧ db'.evidence = db.evidence ∧ ∀ c ∈ db'.cases,
      (∃ c₀ ∈ db.cases, c₀.caseKey = c.caseKey) ∨
        c.caseKey = newCaseKey input observationId result := by
  have hprevious : (previousCase env input result db).1.results = db.results ∧
      (previousCase env input result db).1.evidence = db.evidence ∧
      ∀ c ∈ (previousCase env input result db).1.cases, ∃ c₀ ∈ db.cases, c₀.caseKey = c.caseKey := by
    unfold previousCase
    split
    · exact ⟨rfl, rfl, fun c hc => ⟨c, hc, rfl⟩⟩
    · split_ifs
      · refine ⟨rfl, rfl, fun c hc => ?_⟩
        obtain ⟨c₀, hc₀, rfl⟩ := Table.mem_updateWhere.1 hc
        exact ⟨c₀, hc₀, by split_ifs <;> rfl⟩
      · exact ⟨rfl, rfl, fun c hc => ⟨c, hc, rfl⟩⟩
  unfold observeCase at h
  generalize previousCase env input result db = p at h hprevious
  obtain ⟨db₁, previous⟩ := p
  obtain ⟨hresults, hevidence, hcases⟩ := hprevious
  dsimp only at h hresults hevidence hcases
  cases hstate : nextControlCaseState (previous.map (·.state)) result observedAt with
  | none =>
    simp only [hstate, Except.ok.injEq, Prod.mk.injEq] at h
    obtain ⟨rfl, -⟩ := h
    exact ⟨hresults, hevidence, fun c hc => Or.inl (hcases c hc)⟩
  | some state =>
    simp only [hstate, bind_ok, Except.ok.injEq, Prod.mk.injEq] at h
    obtain ⟨⟨db₂, id⟩, hupsert, rfl, -⟩ := h
    unfold upsertCase at hupsert
    cases hfind : db₁.findActive (caseActiveKey input.deal.id result) with
    | some c₁ =>
      simp only [hfind, Except.ok.injEq, Prod.mk.injEq] at hupsert
      obtain ⟨rfl, -⟩ := hupsert
      refine ⟨hresults, hevidence, fun c hc => Or.inl ?_⟩
      obtain ⟨c₀, hc₀, rfl⟩ := Table.mem_updateWhere.1 hc
      obtain ⟨c', hc', hkey⟩ := hcases c₀ hc₀
      refine ⟨c', hc', hkey.trans ?_⟩
      split_ifs
      · exact (CaseRow.observe_caseKey _ _ _ _).symm
      · rfl
    | none =>
      simp only [hfind, bind_ok, Except.ok.injEq, Prod.mk.injEq] at hupsert
      obtain ⟨db₃, hinsert, rfl, -⟩ := hupsert
      obtain ⟨rfl, -, -⟩ := insertCase_ok hinsert
      refine ⟨hresults, hevidence, fun c hc => ?_⟩
      rcases List.mem_append.1 hc with hc | hc
      · exact Or.inl (hcases c hc)
      · obtain rfl : c = _ := by simpa using hc
        exact Or.inr rfl

/-- The first half of a turn never fails: the key of a new case is free. -/
theorem observeCase_succeeds (h : Inv env db) (observedAt : ℤ) {result : RuleResult} {todo : List RuleResult}
    (hfresh : Fresh input observationId db (result :: todo)) :
    ∃ p, observeCase env input observationId observedAt db result = .ok p := by
  obtain ⟨-, hfind, -⟩ := h.previousCase input result
  have hkeys : ∀ c ∈ (previousCase env input result db).1.cases,
      c.caseKey ≠ newCaseKey input observationId result := by
    intro c hc
    unfold previousCase at hc
    split at hc
    · exact hfresh.case c hc result List.mem_cons_self
    · split_ifs at hc
      · obtain ⟨c₀, hc₀, rfl⟩ := Table.mem_updateWhere.1 hc
        have := hfresh.case c₀ hc₀ result List.mem_cons_self
        split_ifs <;> exact this
      · exact hfresh.case c hc result List.mem_cons_self
  unfold observeCase
  generalize previousCase env input result db = p at hfind hkeys
  obtain ⟨db₁, previous⟩ := p
  dsimp only at hfind hkeys ⊢
  cases hstate : nextControlCaseState (previous.map (·.state)) result observedAt with
  | none => exact ⟨_, rfl⟩
  | some state =>
    unfold upsertCase
    cases previous with
    | some c =>
      simp only [hfind]
      exact ⟨_, rfl⟩
    | none =>
      have hinsert : db₁.insertCase (newCase (env.uuid db₁.drawn) input result state
          (assessmentHash env input result) observationId observedAt) =
          .ok { db₁ with
            cases := db₁.cases ++ [newCase (env.uuid db₁.drawn) input result state
              (assessmentHash env input result) observationId observedAt]
            drawn := db₁.drawn + 1 } := by
        unfold Db.insertCase
        rw [if_neg, if_neg]
        · rintro ⟨-, hany⟩
          obtain ⟨c, hc, hk⟩ := List.any_eq_true.1 hany
          exact findActive_none.1 hfind c hc (of_decide_eq_true hk)
        · intro hany
          obtain ⟨c, hc, hk⟩ := List.any_eq_true.1 hany
          exact hkeys c hc (of_decide_eq_true hk)
      simp only [hfind, hinsert]
      exact ⟨_, rfl⟩

/-- One turn never fails, and leaves the results still to come fresh. -/
theorem persistResult_succeeds (h : Inv env db) (observedAt : ℤ) {result : RuleResult} {todo : List RuleResult}
    (hfresh : Fresh input observationId db (result :: todo))
    (hfree : ∀ r ∈ result :: todo, JoinedKey.Free ':' r.ruleCode)
    (hnodup : ((result :: todo).map RuleResult.key).Nodup) :
    ∃ db', persistResult env input observationId observedAt db result = .ok db' ∧
      Fresh input observationId db' todo ∧ db'.evidence = db.evidence := by
  obtain ⟨⟨db₁, caseId⟩, hcase⟩ := observeCase_succeeds h observedAt hfresh
  obtain ⟨hresults, hevidence, hcases⟩ := observeCase_frame hcase
  have hne : ∀ r ∈ todo, result.key ≠ r.key := by
    intro r hr heq
    exact (List.nodup_cons.1 hnodup).1 (heq ▸ List.mem_map_of_mem hr)
  have hinsert : db₁.insertResult (resultRow (env.uuid db₁.drawn) observationId result caseId) =
      .ok { db₁ with
        results := db₁.results ++ [resultRow (env.uuid db₁.drawn) observationId result caseId]
        drawn := db₁.drawn + 1 } := by
    unfold Db.insertResult
    rw [if_neg]
    intro hany
    obtain ⟨r, hr, hk⟩ := List.any_eq_true.1 hany
    obtain ⟨hobs, hcode, hsubject⟩ := of_decide_eq_true hk
    rw [hresults] at hr
    exact hfresh.result r hr hobs result List.mem_cons_self (Prod.ext hcode hsubject)
  refine ⟨_, bind_ok.2 ⟨_, hcase, hinsert⟩, ⟨?_, ?_⟩, hevidence⟩
  · intro r hr hobs r' hr'
    rcases List.mem_append.1 hr with hr | hr
    · rw [hresults] at hr
      exact hfresh.result r hr hobs r' (List.mem_cons_of_mem _ hr')
    · obtain rfl : r = _ := by simpa using hr
      exact hne r' hr'
  · intro c hc r' hr' heq
    rcases hcases c hc with ⟨c₀, hc₀, hkey⟩ | hkey
    · exact hfresh.case c₀ hc₀ r' (List.mem_cons_of_mem _ hr') (hkey.trans heq)
    · refine hne r' hr' (caseActiveKey_inj input.deal.id (hfree _ List.mem_cons_self)
        (hfree _ (List.mem_cons_of_mem _ hr')) ?_)
      have hjoined := hkey.symm.trans heq
      unfold newCaseKey at hjoined
      simpa [String.append_left_inj] using hjoined

/-- The loop never fails, by induction over the results. -/
theorem persistResults_succeeds {results : List RuleResult} (h : Inv env db) (observedAt : ℤ)
    (hobs : Drawn env db.drawn observationId) (hfresh : Fresh input observationId db results)
    (hfree : ∀ r ∈ results, JoinedKey.Free ':' r.ruleCode)
    (hnodup : (results.map RuleResult.key).Nodup) :
    ∃ db', persistResults env input observationId observedAt db results = .ok db' ∧
      db'.evidence = db.evidence := by
  induction results generalizing db with
  | nil => exact ⟨db, rfl, rfl⟩
  | cons result results ih =>
    obtain ⟨db₁, hturn, hfresh₁, hevidence₁⟩ :=
      persistResult_succeeds h observedAt hfresh hfree hnodup
    have hstep := h.persistResult hobs hturn
    obtain ⟨db₂, hrest, hevidence₂⟩ := ih hstep.inv (hobs.mono hstep.drawn) hfresh₁
      (fun r hr => hfree r (List.mem_cons_of_mem _ hr)) (List.nodup_cons.1 hnodup).2
    exact ⟨db₂, bind_ok.2 ⟨db₁, hturn, hrest⟩, hevidence₂.trans hevidence₁⟩

end Loop

/-- An observation whose results have distinct keys is saved whole. -/
theorem saveObservation_succeeds (h : Inv env db) {args : PersistArgs} {results : List RuleResult}
    (observedAt : ℤ) (hnew : db.savedObservation args.runId args.input.deal.id = none)
    (hfree : ∀ r ∈ results, JoinedKey.Free ':' r.ruleCode)
    (hnodup : (results.map RuleResult.key).Nodup) :
    ∃ p, saveObservation env args results observedAt db = .ok p := by
  set row := observationRow env args results (env.uuid db.drawn) observedAt with hrow
  have hinsert : db.insertObservation row =
      .ok { db with observations := db.observations ++ [row], drawn := db.drawn + 1 } := by
    unfold Db.insertObservation
    rw [if_neg]
    intro hany
    obtain ⟨o, ho, hk⟩ := List.any_eq_true.1 hany
    exact List.find?_eq_none.1 hnew o ho hk
  have hinv₁ := h.insertObservation hinsert rfl
  have hfresh : Fresh args.input (env.uuid db.drawn)
      { db with observations := db.observations ++ [row], drawn := db.drawn + 1 } results :=
    h.fresh (by rfl) (by rfl) results
  obtain ⟨db₂, hloop, hevidence₂⟩ :=
    persistResults_succeeds hinv₁ observedAt (drawn_next db.drawn) hfresh hfree hnodup
  have hevidence : ∀ e ∈ (resolveUnlimited args.input results (env.uuid db.drawn) observedAt
      (resolveGoneTasks args.input (env.uuid db.drawn) observedAt db₂)).evidence,
      e.observationId ≠ env.uuid db.drawn := by
    intro e he
    have hsame : (resolveUnlimited args.input results (env.uuid db.drawn) observedAt
        (resolveGoneTasks args.input (env.uuid db.drawn) observedAt db₂)).evidence = db.evidence := by
      unfold resolveUnlimited resolveGoneTasks
      split_ifs <;> exact hevidence₂
    rw [hsame] at he
    exact (h.evidence_drawn e he).ne
  have hrequest : ∃ db', requestEvidence env results (env.uuid db.drawn) args.labels.dealUrl
      (resolveUnlimited args.input results (env.uuid db.drawn) observedAt
        (resolveGoneTasks args.input (env.uuid db.drawn) observedAt db₂)) = .ok db' := by
    unfold requestEvidence
    split_ifs
    · unfold Db.insertEvidence
      rw [if_neg]
      · exact ⟨_, rfl⟩
      · intro hany
        obtain ⟨e, he, hk⟩ := List.any_eq_true.1 hany
        exact hevidence e he (of_decide_eq_true hk)
    · exact ⟨_, rfl⟩
  obtain ⟨db', hrequest⟩ := hrequest
  exact ⟨(db', row), bind_ok.2 ⟨_, hinsert, bind_ok.2 ⟨_, hloop, bind_ok.2 ⟨_, hrequest, rfl⟩⟩⟩⟩

/-- No observation with the results of the rule engine runs into a unique index. -/
theorem persistObservation_no_violation (h : Inv env db) {args : PersistArgs}
    (hrules : args.results = evaluateCrmControlDeal env.dateTimeFormat args.input) (index : String) :
    persistObservation env args db ≠ .error (.uniqueViolation index) := by
  intro herror
  rcases bind_error.1 herror with hassess | ⟨results, hassess, herror⟩
  · unfold assessOffers at hassess
    repeat' (first | split at hassess | exact nomatch hassess)
  split_ifs at herror with hlease
  · exact nomatch herror
  cases hsaved : db.savedObservation args.runId args.input.deal.id with
  | some existing => simp [hsaved] at herror
  | none =>
    cases hobs : args.input.observedAt with
    | none => simp [hsaved, hobs] at herror
    | some observedAt =>
      simp only [hsaved, hobs] at herror
      have hkeys := assessOffers_keys hassess
      have hfree : ∀ r ∈ results, JoinedKey.Free ':' r.ruleCode := by
        intro r hr
        have hmem : r.key ∈ args.results.map RuleResult.key := hkeys ▸ List.mem_map_of_mem hr
        obtain ⟨r₀, hr₀, hkey⟩ := List.mem_map.1 hmem
        obtain ⟨code, hcode⟩ := exists_code_of_mem_evaluate (hrules ▸ hr₀)
        have : r.ruleCode = code.code := (congrArg Prod.fst hkey).symm.trans hcode
        rw [this]
        exact code.free_code
      obtain ⟨p, hp⟩ := saveObservation_succeeds h observedAt hsaved hfree
        (by rw [hkeys, hrules]; exact nodup_evaluate _ _)
      rw [hp] at herror
      exact nomatch herror

/-- **The case-key invariant.** In every store reached from the empty one by observations of the
rule engine, decisions and manual reviews, a case that no manual review created holds the key of its
deal, rule and subject exactly while it is `OPEN`, `REVIEW`, `DISPUTED` or `EXEMPTED`, and none
exactly when it is `RESOLVED` or `SUPERSEDED`; no two live cases share a deal, a rule and a subject;
and no further observation violates a unique index. -/
theorem case_keys (hreach : Run.ReachableVia (step env) (FromRules env) {} db) :
    (∀ c ∈ db.cases, ¬ ByReview env c →
      (c.activeKey = some c.key ↔ c.status = .opened ∨ c.status = .review ∨ c.status = .disputed ∨
        c.status = .exempted) ∧
      (c.activeKey = none ↔ c.status = .resolved ∨ c.status = .superseded)) ∧
    (∀ c ∈ db.cases, ∀ c' ∈ db.cases, c.dealId = c'.dealId → c.ruleCode = c'.ruleCode →
      c.subjectId = c'.subjectId → ¬ ByReview env c → ¬ ByReview env c' →
      ¬ c.status.Closed → ¬ c'.status.Closed → c = c') ∧
    ∀ args, args.results = evaluateCrmControlDeal env.dateTimeFormat args.input → ∀ index,
      persistObservation env args db ≠ .error (.uniqueViolation index) := by
  have hinv := inv_of_reachable hreach
  refine ⟨fun c hc hreview => ?_, ?_, fun args hrules => persistObservation_no_violation hinv hrules⟩
  · have hcoupled := hinv.coupled c hc
    have hlive : ¬ c.status.Closed ↔ c.activeKey = some c.key :=
      ⟨hcoupled.live hreview, fun hk => (hcoupled.active _ hk).2⟩
    have hclosed : c.status.Closed ↔ c.activeKey = none := by
      constructor
      · intro hclosed
        cases hk : c.activeKey with
        | none => rfl
        | some k => exact absurd hclosed (hcoupled.active k hk).2
      · intro hk
        by_contra hne
        rw [hcoupled.live hreview hne] at hk
        exact nomatch hk
    refine ⟨hlive.symm.trans ?_, hclosed.symm⟩
    cases c.status <;> simp [CaseStatus.Closed]
  · intro c hc c' hc' hdeal hrule hsubject hreview hreview' hlive hlive'
    have hk := (hinv.coupled c hc).live hreview hlive
    have hk' := (hinv.coupled c' hc').live hreview' hlive'
    have hkey : c'.key = c.key := by simp [CaseRow.key, hdeal, hrule, hsubject]
    exact hinv.active_unique.eq_of_mem hc hc' hk (hkey ▸ hk')

namespace Sample

/-- An observation of the sample deal with the results of the rule engine. -/
def ruled (runId : String) (observedAt : ℤ) (tasks : List Task) : Op :=
  persist runId observedAt tasks
    (evaluateCrmControlDeal environment.dateTimeFormat (input tasks observedAt))

/-- The deal is observed with an empty task and then without it. -/
def ruledHistory : List Op :=
  [.queue [run "run1" 1000], ruled "run1" 1000 [task ""], .queue [run "run2" 2000], ruled "run2" 2000 []]

def ruledStore : Db := (Run.run (step environment) {} ruledHistory).getD {}

theorem ruledStore_reachable :
    Run.ReachableVia (step environment) (FromRules environment) {} ruledStore := by
  refine ⟨ruledHistory, ⟨trivial, fun _ _ => ⟨rfl, fun _ _ => ⟨trivial, fun _ _ => ⟨rfl, ?_⟩⟩⟩⟩,
    run_eq_some _ _ _⟩
  exact fun _ _ => trivial

end Sample

theorem case_keys_sample :
    (∀ c ∈ Sample.ruledStore.cases, ¬ ByReview Sample.environment c →
      (c.activeKey = some c.key ↔ c.status = .opened ∨ c.status = .review ∨ c.status = .disputed ∨
        c.status = .exempted) ∧
      (c.activeKey = none ↔ c.status = .resolved ∨ c.status = .superseded)) ∧
    (∀ c ∈ Sample.ruledStore.cases, ∀ c' ∈ Sample.ruledStore.cases, c.dealId = c'.dealId →
      c.ruleCode = c'.ruleCode → c.subjectId = c'.subjectId → ¬ ByReview Sample.environment c →
      ¬ ByReview Sample.environment c' → ¬ c.status.Closed → ¬ c'.status.Closed → c = c') ∧
    ∀ args, args.results = evaluateCrmControlDeal Sample.environment.dateTimeFormat args.input →
      ∀ index, persistObservation Sample.environment args Sample.ruledStore ≠
        .error (.uniqueViolation index) :=
  case_keys Sample.ruledStore_reachable

end AmoAnalytics.CrmControl
