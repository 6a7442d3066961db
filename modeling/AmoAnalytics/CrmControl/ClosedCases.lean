import AmoAnalytics.CrmControl.CaseInvariant

/-!
# Closed cases

A case that is `RESOLVED` or `SUPERSEDED` is history. The upsert of a result and the second bulk
update go by the active key and cannot reach it. The first bulk update selects every case of a task
that is no longer open, except the resolved ones, with no regard to the active key: it rewrites
superseded cases and the cases of manual reviews. Where it selects none of these, history is frozen.
-/

namespace AmoAnalytics.CrmControl

open Transaction

variable {env : Env} {db db' : Db}

/-- An observation that is about to be saved with complete tasks finds no case without an active key
whose task is gone. -/
def SparesIdleCases (db : Db) : Op → Prop
  | .persist args =>
    holdsLease db args.runId args.leaseStartedAt = true →
    db.savedObservation args.runId args.input.deal.id = none →
    args.input.sourceCompleteness.tasks = true → args.input.sourceCompleteness.deal = true →
    ∀ c ∈ db.cases, goneTask args.input c = true → c.activeKey ≠ none
  | _ => True

/-- History between two states: closed cases are the same rows, and a case of a manual review that
was not resolved is not resolved. -/
structure Frozen (env : Env) (db db' : Db) : Prop where
  closed : ∀ c ∈ db.cases, c.status.Closed → c ∈ db'.cases
  review : ∀ c ∈ db.cases, ByReview env c → c.status ≠ .resolved →
    ∃ c' ∈ db'.cases, c'.id = c.id ∧ ByReview env c' ∧ c'.status ≠ .resolved

theorem Frozen.of_mem (h : ∀ c ∈ db.cases, c.activeKey = none → c ∈ db'.cases) (hinv : Inv env db) :
    Frozen env db db' where
  closed c hc hclosed := by
    refine h c hc ?_
    cases hk : c.activeKey with
    | none => rfl
    | some k => exact absurd hclosed ((hinv.coupled c hc).active k hk).2
  review c hc hreview hne := ⟨c, h c hc ((hinv.coupled c hc).review hreview), rfl, hreview, hne⟩

theorem Frozen.refl (hinv : Inv env db) : Frozen env db db := .of_mem (fun _ hc _ => hc) hinv

theorem Frozen.trans {db'' : Db} (h : Frozen env db db') (h' : Frozen env db' db'') :
    Frozen env db db'' where
  closed c hc hclosed := h'.closed c (h.closed c hc hclosed) hclosed
  review c hc hreview hne := by
    obtain ⟨c₁, hc₁, hid₁, hreview₁, hne₁⟩ := h.review c hc hreview hne
    obtain ⟨c₂, hc₂, hid₂, hreview₂, hne₂⟩ := h'.review c₁ hc₁ hreview₁ hne₁
    exact ⟨c₂, hc₂, hid₂.trans hid₁, hreview₂, hne₂⟩

/-- A saved observation leaves every case without an active key as it is, when the first bulk update
selects none of them. -/
theorem persistObservation_idle (h : Inv env db) {args : PersistArgs} {o : Observation}
    (hspares : SparesIdleCases db (.persist args))
    (hdb : persistObservation env args db = .ok (db', o)) :
    ∀ c ∈ db.cases, c.activeKey = none → c ∈ db'.cases := by
  rcases persistObservation_ok hdb with ⟨rfl, -⟩ | ⟨results, observedAt, -, hlease, hnew, -, hsave⟩
  · exact fun c hc _ => hc
  obtain ⟨rfl, db₁, db₂, hinsert, hresults, hevidence⟩ := saveObservation_ok hsave
  obtain ⟨hloop, hobs⟩ := h.saveObservation_loop hinsert hresults
  intro c hc hidle
  have hc₂ := hloop.idle c hc hidle
  have hgone : c ∈ (resolveGoneTasks args.input (env.uuid db.drawn) observedAt db₂).cases := by
    unfold resolveGoneTasks
    split_ifs with hcomplete
    · rw [Bool.and_eq_true] at hcomplete
      refine Table.mem_updateWhere_of_not hc₂ (Bool.eq_false_iff.2 fun hsel => ?_)
      exact hspares hlease hnew hcomplete.1 hcomplete.2 c hc hsel hidle
    · exact hc₂
  have hunlimited := (hloop.inv.resolveGoneTasks args.input (env.uuid db.drawn) observedAt).resolveUnlimited
    args.input results (env.uuid db.drawn) observedAt
  unfold requestEvidence at hevidence
  split_ifs at hevidence
  · obtain rfl := insertEvidence_ok hevidence
    exact hunlimited.idle c hgone hidle
  · obtain rfl := Except.ok.inj hevidence
    exact hunlimited.idle c hgone hidle

/-- A decision writes the live case it is about, and gives it a live status. -/
theorem decide_frozen {access : Access} {id : String} {body : DecisionInput}
    {clock : DecisionClock} (hdb : Service.decide env access id body clock db = .ok db') :
    Frozen env db db' := by
  obtain ⟨item, o, hitem, -, hrefusal, rfl⟩ := decide_ok hdb
  obtain ⟨hlive, -, -⟩ := decideRefusal_none hrefusal
  constructor
  · intro c hc hclosed
    refine Table.mem_updateWhere_of_not hc (decide_eq_false fun hsel => ?_)
    exact hlive (hsel.2.1 ▸ hclosed)
  · intro c hc hreview hne
    refine ⟨_, Table.mem_updateWhere_of_mem hc, ?_⟩
    split_ifs
    · exact ⟨rfl, hreview, (decidedStatus_live _).2⟩
    · exact ⟨rfl, hreview, hne⟩

/-- **Step lemma.** -/
theorem frozen_step {op : Op} (h : Inv env db) (hspares : SparesIdleCases db op)
    (hstep : step env db op = some db') : Frozen env db db' := by
  cases op with
  | persist args =>
    obtain rfl := Option.some.inj hstep
    refine commit_induction (.refl h) fun t ht => ?_
    obtain ⟨⟨t', o⟩, hpersist, rfl⟩ := map_ok.1 ht
    exact .of_mem (persistObservation_idle h hspares hpersist) h
  | decide access id body clock =>
    obtain rfl := Option.some.inj hstep
    exact commit_induction (.refl h) fun t ht => decide_frozen ht
  | review access observationId resultId body now =>
    obtain rfl := Option.some.inj hstep
    exact commit_induction (.refl h) fun t ht => .of_mem (fun c hc _ => (h.reviewResult ht).2 c hc) h
  | queue runs =>
    obtain rfl := Option.some.inj hstep
    exact .of_mem (fun _ hc _ => hc) h
  | analyse outcomes =>
    obtain rfl := Option.some.inj hstep
    exact .of_mem (fun _ hc _ => hc) h

/-- **Closed cases are frozen.** From any reachable store, along every run whose observations spare
the cases without an active key, a closed case has no active key and stays the same row, and a case
created by a manual review never becomes `RESOLVED`. -/
theorem closed_cases_frozen (hreach : Run.Reachable (step env) {} db)
    (hrun : Run.ReachableVia (step env) SparesIdleCases db db') :
    (∀ c ∈ db.cases, c.status.Closed → c.activeKey = none ∧ c ∈ db'.cases ∧
      ∀ c' ∈ db'.cases, c'.id = c.id → c' = c) ∧
    ∀ c ∈ db.cases, ByReview env c → c.activeKey = none ∧ (c.status ≠ .resolved →
      ∀ c' ∈ db'.cases, c'.id = c.id → c'.status ≠ .resolved) := by
  have hinv := inv_of_reachable hreach
  have hinv' : Inv env db' := hrun.invariant hinv fun _ _ _ hs _ => inv_step hs
  have hfrozen : Frozen env db db' := hrun.stable hinv (fun _ => .refl) (fun _ _ _ => .trans)
    fun _ _ _ hs hspares hstep => ⟨inv_step hs hstep, frozen_step hs hspares hstep⟩
  refine ⟨fun c hc hclosed => ?_, fun c hc hreview => ⟨(hinv.coupled c hc).review hreview, ?_⟩⟩
  · have hc' := hfrozen.closed c hc hclosed
    refine ⟨?_, hc', fun c' hmem hid => hinv'.eq_of_id hmem hc' hid⟩
    cases hk : c.activeKey with
    | none => rfl
    | some k => exact absurd hclosed ((hinv.coupled c hc).active k hk).2
  · intro hne c' hmem hid
    obtain ⟨c'', hmem'', hid'', -, hne''⟩ := hfrozen.review c hc hreview hne
    rwa [hinv'.eq_of_id hmem hmem'' (hid.trans hid''.symm)]

/-! ## The defect, and a run without it -/

namespace Sample

/-- A violation is confirmed, and superseded when the text of the task changes. -/
def history : List Op :=
  [.queue [run "run1" 1000], persist "run1" 1000 [task ""] [textResult (task "") .fail],
    .decide owner (uuid 1) ⟨.confirm, "подтверждено", none⟩ ⟨2000, 2000, 2000⟩,
    .queue [run "run2" 3000],
    persist "run2" 3000 [task "Позвонить"] [textResult (task "Позвонить") .review],
    .queue [run "run3" 4000]]

/-- The store after the history. -/
def before : Db := (Run.run (step environment) {} history).getD {}

theorem run_history : Run.run (step environment) {} history = some before := run_eq_some _ _ _

/-- A later observation of the deal with the task still open, now in order. -/
def sparing : Op := persist "run3" 4000 [task "Позвонить"] [textResult (task "Позвонить") .pass]

/-- A later observation of the deal without open tasks. -/
def sweeping : Op := persist "run3" 4000 []
  [ruleResult true .taskDeadline .pass "Незавершённых задач на сегодня или с истёкшим сроком нет."]

def afterSparing : Db := (step environment before sparing).getD {}
def afterSweeping : Db := (step environment before sweeping).getD {}

theorem spares_sparing : SparesIdleCases before sparing := by
  intro _ _ _ _
  decide

end Sample

theorem closed_cases_frozen_sample :
    (∀ c ∈ Sample.before.cases, c.status.Closed → c.activeKey = none ∧ c ∈ Sample.afterSparing.cases ∧
      ∀ c' ∈ Sample.afterSparing.cases, c'.id = c.id → c' = c) ∧
    ∀ c ∈ Sample.before.cases, ByReview Sample.environment c → c.activeKey = none ∧
      (c.status ≠ .resolved → ∀ c' ∈ Sample.afterSparing.cases, c'.id = c.id → c'.status ≠ .resolved) :=
  closed_cases_frozen (Run.reachable_of_run Sample.run_history)
    (.single Sample.spares_sparing (rfl : _ = some Sample.afterSparing))

/-- Without the condition the superseded case of the history becomes resolved. -/
theorem superseded_case_resolved :
    ¬ ∀ (env : Env) (db db' : Db), Run.Reachable (step env) {} db → Run.Reachable (step env) db db' →
      ∀ c ∈ db.cases, c.status.Closed → ∀ c' ∈ db'.cases, c'.id = c.id →
        c'.status = c.status ∧ c'.activeKey = none ∧ c'.resolvedAt = c.resolvedAt ∧
          c'.latestObservationId = c.latestObservationId := by
  intro h
  have hfrozen := h Sample.environment Sample.before Sample.afterSweeping
    (Run.reachable_of_run Sample.run_history)
    (.single (a := Sample.sweeping) trivial (rfl : _ = some Sample.afterSweeping))
  have hfails : ¬ ∀ c ∈ Sample.before.cases, c.status.Closed → ∀ c' ∈ Sample.afterSweeping.cases,
      c'.id = c.id → c'.status = c.status := by decide
  exact hfails fun c hc hclosed c' hc' hid => (hfrozen c hc hclosed c' hc' hid).1

end AmoAnalytics.CrmControl
