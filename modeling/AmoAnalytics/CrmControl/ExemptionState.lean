import AmoAnalytics.CrmControl.CaseKeys

/-!
# The state of a case and its decisions

A live case stores one status, one deadline and one confirmation time; the decisions on it are kept
apart, in the order they were accepted. While the clock moves forward the status of every live case
follows its last decision: `Follows` says how, `Tracked` adds the order of the times, and every
operation keeps it.
-/

namespace AmoAnalytics.CrmControl

open Transaction

variable {env : Env} {db db' : Db}

/-! ## The clock -/

/-- `t` is after the decisions on the case and not before its latest observation. -/
structure After (db : Db) (c : CaseRow) (t : ℤ) : Prop where
  observation : ∀ o ∈ db.observations, o.id = c.latestObservationId → o.observedAt ≤ t
  decision : ∀ d ∈ db.decisions, d.caseId = c.id → d.createdAt < t

/-- The clock moves forward on each case: an observation is made after the decisions and the latest
observation of the cases it is about, a decision not before the observation it is about. -/
def ClockForward (db : Db) : Op → Prop
  | .persist args => ∀ t, args.input.observedAt = some t → ∀ key ∈ args.results.map RuleResult.key,
    ∀ c ∈ db.cases, c.activeKey = some (args.input.deal.id ++ ":" ++ key.1 ++ ":" ++ key.2) → After db c t
  | .decide _ id _ clock => ∀ c ∈ db.cases, c.id = id → ∀ o ∈ db.observations,
    o.id = c.latestObservationId → o.observedAt ≤ clock.decidedAt
  | _ => True

/-! ## Decisions -/

/-- The decisions on a case, without the manual reviews, in the order they were accepted. -/
def Db.caseDecisions (db : Db) (id : String) : List Decision :=
  db.decisions.filter fun d => d.caseId = id ∧ d.action.isReview = false

theorem mem_caseDecisions {id : String} {d : Decision} :
    d ∈ db.caseDecisions id ↔ d ∈ db.decisions ∧ d.caseId = id ∧ d.action.isReview = false := by
  simp [Db.caseDecisions]

theorem newestDecision_none {ds : List Decision} : newestDecision ds = none ↔ ds = [] := by
  cases ds with
  | nil => simp [newestDecision]
  | cons d ds =>
    simp only [newestDecision, reduceCtorEq, iff_false]
    split
    · simp
    · split_ifs <;> simp

/-- The newest decision is one of the list, and none was made later. -/
theorem newestDecision_some {ds : List Decision} {d : Decision} (h : newestDecision ds = some d) :
    d ∈ ds ∧ ∀ e ∈ ds, e.createdAt ≤ d.createdAt := by
  induction ds generalizing d with
  | nil => exact nomatch h
  | cons a ds ih =>
    rw [newestDecision] at h
    split at h
    · rename_i hnone
      obtain rfl := newestDecision_none.1 hnone
      obtain rfl := Option.some.inj h
      simp
    · rename_i e hsome
      obtain ⟨he, hmax⟩ := ih hsome
      split_ifs at h with hnewer
      · obtain rfl := Option.some.inj h
        refine ⟨List.mem_cons_of_mem _ he, fun x hx => ?_⟩
        rcases List.mem_cons.1 hx with rfl | hx
        · simp only [Decision.newer, Bool.or_eq_true, decide_eq_true_eq, Bool.and_eq_true] at hnewer
          rcases hnewer with hlt | ⟨heq, -⟩ <;> omega
        · exact hmax x hx
      · obtain rfl := Option.some.inj h
        refine ⟨List.mem_cons_self, fun x hx => ?_⟩
        rcases List.mem_cons.1 hx with rfl | hx
        · exact le_rfl
        · have hlt : ¬ a.createdAt < e.createdAt := fun hlt => hnewer (by simp [Decision.newer, hlt])
          have := hmax x hx
          omega

/-! ## What a live case stores -/

/-- The stored state of a case whose last decision is given. An exemption that an observation found
expired leaves the case open again. -/
def Follows (observations : List Observation) (c : CaseRow) : Option Decision → Prop
  | none => (c.status = .opened ∨ c.status = .review) ∧ c.confirmedAt = none
  | some d =>
    match d.action with
    | .confirm => c.status = .opened ∧ c.confirmedAt ≠ none
    | .dispute => c.status = .disputed
    | .exempt => c.confirmedAt = none ∧ ∃ v, d.validUntil = some v ∧ c.exemptionUntil = some v ∧
        (c.status = .exempted ∨ ((c.status = .opened ∨ c.status = .review) ∧
          ∃ o ∈ observations, o.id = c.latestObservationId ∧ v ≤ o.observedAt))
    | .verify _ => False

structure Tracked (db : Db) (c : CaseRow) : Prop where
  sorted : (db.caseDecisions c.id).Pairwise fun a b => a.createdAt < b.createdAt
  dated : ∀ d ∈ db.caseDecisions c.id, d.observationId = c.latestObservationId ∨
    ∃ o ∈ db.observations, o.id = c.latestObservationId ∧ d.createdAt < o.observedAt
  follows : Follows db.observations c (db.caseDecisions c.id).getLast?

/-- Every live case is tracked. -/
def Clocked (db : Db) : Prop := ∀ c ∈ db.cases, c.activeKey ≠ none → Tracked db c

theorem Follows.mono {os os' : List Observation} (hsub : ∀ o ∈ os, o ∈ os') {c : CaseRow}
    {last : Option Decision} (h : Follows os c last) : Follows os' c last := by
  cases last with
  | none => exact h
  | some d =>
    unfold Follows at h ⊢
    cases haction : d.action <;> simp only [haction] at h ⊢
    · exact h
    · obtain ⟨hconfirmed, v, hv, hexemption, hstatus⟩ := h
      refine ⟨hconfirmed, v, hv, hexemption, hstatus.imp_right ?_⟩
      exact fun ⟨hs, o, ho, hid, hle⟩ => ⟨hs, o, hsub o ho, hid, hle⟩
    · exact h

/-- More observations and the same decisions keep a case tracked. -/
theorem Tracked.mono {c : CaseRow} (h : Tracked db c) (hobs : ∀ o ∈ db.observations, o ∈ db'.observations)
    (hdecisions : db'.caseDecisions c.id = db.caseDecisions c.id) : Tracked db' c where
  sorted := by rw [hdecisions]; exact h.sorted
  dated d hd := by
    rw [hdecisions] at hd
    exact (h.dated d hd).imp_right fun ⟨o, ho, hid, hle⟩ => ⟨o, hobs o ho, hid, hle⟩
  follows := by rw [hdecisions]; exact h.follows.mono hobs

/-- The decisions on a case determine each other by their times. -/
theorem Tracked.eq_of_time {c : CaseRow} (h : Tracked db c) {d e : Decision}
    (hd : d ∈ db.caseDecisions c.id) (he : e ∈ db.caseDecisions c.id)
    (htime : d.createdAt = e.createdAt) : d = e := by
  have htimes : ((db.caseDecisions c.id).map (·.createdAt)).Nodup :=
    List.pairwise_map.2 (h.sorted.imp fun hlt => by omega)
  exact List.inj_on_of_nodup_map htimes hd he htime

/-- The last decision is the newest. -/
theorem Tracked.le_last {c : CaseRow} (h : Tracked db c) {last d : Decision}
    (hlast : (db.caseDecisions c.id).getLast? = some last) (hd : d ∈ db.caseDecisions c.id) :
    d.createdAt ≤ last.createdAt := by
  obtain ⟨init, hsplit⟩ := List.getLast?_eq_some_iff.1 hlast
  have hsorted := h.sorted
  rw [hsplit] at hsorted hd
  rcases List.mem_append.1 hd with hd | hd
  · exact ((List.pairwise_append.1 hsorted).2.2 d hd last (by simp)).le
  · obtain rfl : d = last := by simpa using hd
    exact le_rfl

/-! ## An observation keeps the cases tracked -/

section Observe

variable {input : RuleInput} {result : RuleResult} {observationId : String} {observedAt : ℤ}

/-- The state that an observation gives an undecided case. -/
theorem nextControlCaseState_undecided {previous : Option CaseState}
    (hprevious : ∀ p, previous = some p → p.status ≠ .disputed ∧ p.confirmedAt = none ∧
      ¬ (p.status = .exempted ∧ ∃ v, p.exemptionUntil = some v ∧ observedAt < v))
    {state : CaseStatus} (h : nextControlCaseState previous result observedAt = some state)
    (hne : state ≠ .resolved) : state = .opened ∨ state = .review := by
  unfold nextControlCaseState at h
  cases previous with
  | none => split_ifs at h <;> simp_all
  | some p =>
    obtain ⟨hdisputed, hconfirmed, hexempted⟩ := hprevious p rfl
    have hexempt : ¬ ((decide (p.status = .exempted) && p.exemptionUntil.any (observedAt < ·)) = true) := by
      simpa [Option.any_eq_true] using hexempted
    simp only [hconfirmed, Option.isSome_none, Bool.false_eq_true, if_false, if_neg hexempt,
      if_neg hdisputed] at h
    split_ifs at h <;> simp_all

/-- A tracked case that is observed at a later time stays tracked. -/
theorem Tracked.observe {c : CaseRow} (h : Tracked db c) (hafter : After db c observedAt)
    {o : Observation} (ho : o ∈ db.observations) (hid : o.id = observationId)
    (htime : o.observedAt = observedAt) {state : CaseStatus}
    (hstate : nextControlCaseState (some c.state) result observedAt = some state)
    (hne : state ≠ .resolved) (hash : String) (previous : Option CaseRow) :
    Tracked db (c.observe state hash observationId observedAt previous) := by
  have hobserve : c.observe state hash observationId observedAt previous =
      { c with
        status := state, assessmentHash := hash, latestObservationId := observationId
        lastDetectedAt := observedAt, resolvedAt := none } := by
    unfold CaseRow.observe
    rw [if_neg hne]
  rw [hobserve]
  refine ⟨h.sorted, fun d hd => Or.inr ⟨o, ho, hid, ?_⟩, ?_⟩
  · rw [htime]
    exact hafter.decision d (mem_caseDecisions.1 hd).1 (mem_caseDecisions.1 hd).2.1
  have hfollows := h.follows
  show Follows db.observations _ (db.caseDecisions c.id).getLast?
  cases hlast : (db.caseDecisions c.id).getLast? with
  | none =>
    rw [hlast] at hfollows
    obtain ⟨hstatus, hconfirmed⟩ := hfollows
    refine ⟨nextControlCaseState_undecided (fun p hp => ?_) hstate hne, hconfirmed⟩
    obtain rfl := Option.some.inj hp
    rcases hstatus with hs | hs <;> simp [CaseRow.state, hs, hconfirmed]
  | some d =>
    rw [hlast] at hfollows
    unfold Follows at hfollows ⊢
    cases haction : d.action <;> simp only [haction] at hfollows ⊢
    · -- a confirmed case stays open
      obtain ⟨hstatus, hconfirmed⟩ := hfollows
      refine ⟨?_, hconfirmed⟩
      have hsome : c.confirmedAt.isSome = true := Option.isSome_iff_ne_none.2 hconfirmed
      unfold nextControlCaseState at hstate
      simp only [CaseRow.state, hstatus, hsome] at hstate
      split_ifs at hstate <;> simp_all
    · obtain ⟨hconfirmed, v, hv, hexemption, hstatus⟩ := hfollows
      refine ⟨hconfirmed, v, hv, hexemption, ?_⟩
      by_cases hkept : c.status = .exempted ∧ observedAt < v
      · -- the deadline lies ahead
        left
        unfold nextControlCaseState at hstate
        simp only [CaseRow.state, hkept.1, hexemption, Option.any_some, decide_eq_true hkept.2] at hstate
        split_ifs at hstate <;> simp_all
      · -- the deadline is over, now or at an earlier observation
        right
        have hover : v ≤ observedAt := by
          rcases hstatus with hs | ⟨-, o', ho', hid', hle⟩
          · exact not_lt.1 fun hlt => hkept ⟨hs, hlt⟩
          · exact hle.trans (hafter.observation o' ho' hid')
        refine ⟨nextControlCaseState_undecided (fun p hp => ?_) hstate hne, o, ho, hid, by rw [htime]; exact hover⟩
        obtain rfl := Option.some.inj hp
        refine ⟨?_, hconfirmed, ?_⟩
        · rcases hstatus with hs | ⟨hs | hs, -⟩ <;> simp [CaseRow.state, hs]
        · rintro ⟨-, w, hw, hlt⟩
          obtain rfl : v = w := Option.some.inj (hexemption.symm.trans hw)
          omega
    · -- a disputed case stays disputed
      unfold nextControlCaseState at hstate
      simp only [CaseRow.state, hfollows] at hstate
      split_ifs at hstate <;> simp_all

/-- A new case follows no decision. -/
theorem Inv.tracked_newCase (h : Inv env db) {id : String} (hid : ¬ Drawn env db.drawn id)
    (hdecisions : db'.decisions = db.decisions) {state : CaseStatus}
    (hstate : nextControlCaseState none result observedAt = some state) (hash : String) :
    Tracked db' (newCase id input result state hash observationId observedAt) := by
  have hnone : db'.caseDecisions id = [] := by
    refine List.filter_eq_nil_iff.2 fun d hd hsel => hid ?_
    rw [hdecisions] at hd
    have hcase : d.caseId = id := (of_decide_eq_true hsel).1
    exact hcase ▸ (h.decision_drawn d hd).1
  refine ⟨by show (db'.caseDecisions id).Pairwise _; simp [hnone], fun d hd => ?_, ?_⟩
  · have hd' : d ∈ db'.caseDecisions id := hd
    simp [hnone] at hd'
  · show Follows _ _ (db'.caseDecisions id).getLast?
    rw [hnone]
    have hne : state ≠ .resolved := by
      rintro rfl
      exact nextControlCaseState_none_ne_resolved hstate
    exact ⟨nextControlCaseState_undecided (by simp) hstate hne, rfl⟩

/-- Where the cases after the first half of a turn come from: a live one is an old row, the observed
row of the result, or new. -/
theorem Inv.mem_observeCase (h : Inv env db) {caseId : Option String}
    (hdb : CrmControl.observeCase env input observationId observedAt db result = .ok (db', caseId)) :
    db'.decisions = db.decisions ∧ db'.observations = db.observations ∧
      ∀ c' ∈ db'.cases, c'.activeKey ≠ none → c' ∈ db.cases ∨
        (∃ c ∈ db.cases, c.activeKey = some (caseActiveKey input.deal.id result) ∧
          ∃ state, nextControlCaseState (some c.state) result observedAt = some state ∧
            state ≠ .resolved ∧ c' = c.observe state (assessmentHash env input result) observationId
              observedAt (some c)) ∨
        ∃ state, nextControlCaseState none result observedAt = some state ∧
          c' = newCase (env.uuid db.drawn) input result state (assessmentHash env input result)
            observationId observedAt := by
  have hprevious : (CrmControl.previousCase env input result db).1.decisions = db.decisions ∧
      (CrmControl.previousCase env input result db).1.observations = db.observations ∧
      ∀ c' ∈ (CrmControl.previousCase env input result db).1.cases, c'.activeKey ≠ none →
        c' ∈ db.cases := by
    unfold CrmControl.previousCase
    split
    · exact ⟨rfl, rfl, fun c hc _ => hc⟩
    · split_ifs
      · refine ⟨rfl, rfl, fun c hc hk => ?_⟩
        obtain ⟨c₀, hc₀, rfl⟩ := Table.mem_updateWhere.1 hc
        split_ifs at hk ⊢
        · exact absurd rfl hk
        · exact hc₀
      · exact ⟨rfl, rfl, fun c hc _ => hc⟩
  obtain ⟨hinv, hfind, hdrawn⟩ := h.previousCase input result
  unfold CrmControl.observeCase at hdb
  generalize CrmControl.previousCase env input result db = p at hdb hprevious hinv hfind hdrawn
  obtain ⟨db₁, previous⟩ := p
  obtain ⟨hdecisions, hobservations, hcases⟩ := hprevious
  dsimp only at hdb hinv hfind hdrawn hdecisions hobservations hcases
  cases hstate : nextControlCaseState (previous.map (·.state)) result observedAt with
  | none =>
    simp only [hstate, Except.ok.injEq, Prod.mk.injEq] at hdb
    obtain ⟨rfl, -⟩ := hdb
    exact ⟨hdecisions, hobservations, fun c hc hk => Or.inl (hcases c hc hk)⟩
  | some state =>
    simp only [hstate, bind_ok, Except.ok.injEq, Prod.mk.injEq] at hdb
    obtain ⟨⟨db₂, id⟩, hupsert, rfl, -⟩ := hdb
    unfold CrmControl.upsertCase at hupsert
    cases previous with
    | some c₁ =>
      simp only [hfind, Except.ok.injEq, Prod.mk.injEq] at hupsert
      obtain ⟨rfl, -⟩ := hupsert
      refine ⟨hdecisions, hobservations, fun c' hc' hk => ?_⟩
      obtain ⟨c₀, hc₀, rfl⟩ := Table.mem_updateWhere.1 hc'
      split_ifs at hk ⊢ with hsel
      · -- the row of the key is the previous case
        obtain rfl : c₀ = c₁ := Option.some.inj
          ((hinv.findActive_eq hc₀ (of_decide_eq_true hsel)).symm.trans hfind)
        have hne : state ≠ .resolved := by
          rintro rfl
          simp [CaseRow.observe] at hk
        refine Or.inr (Or.inl ⟨c₀, hcases c₀ hc₀ ?_, of_decide_eq_true hsel, state, hstate, hne, rfl⟩)
        simp [of_decide_eq_true hsel]
      · exact Or.inl (hcases c₀ hc₀ hk)
    | none =>
      simp only [hfind, bind_ok, Except.ok.injEq, Prod.mk.injEq] at hupsert
      obtain ⟨db₃, hinsert, rfl, -⟩ := hupsert
      obtain ⟨rfl, -, -⟩ := insertCase_ok hinsert
      refine ⟨hdecisions, hobservations, fun c' hc' hk => ?_⟩
      rcases List.mem_append.1 hc' with hc' | hc'
      · exact Or.inl (hcases c' hc' hk)
      · obtain rfl : c' = _ := by simpa using hc'
        exact Or.inr (Or.inr ⟨state, hstate, by rw [hdrawn]⟩)

/-- The loop invariant of an observation: its row is there with its time, the live cases are
tracked, and those the loop still comes to may be observed now. -/
structure LoopClocked (env : Env) (input : RuleInput) (observationId : String) (observedAt : ℤ)
    (db : Db) (todo : List RuleResult) : Prop where
  inv : Inv env db
  drawn : Drawn env db.drawn observationId
  row : ∃ o ∈ db.observations, o.id = observationId ∧ o.observedAt = observedAt
  time : ∀ o ∈ db.observations, o.id = observationId → o.observedAt = observedAt
  clocked : Clocked db
  after : ∀ result ∈ todo, ∀ c ∈ db.cases,
    c.activeKey = some (caseActiveKey input.deal.id result) → After db c observedAt

theorem LoopClocked.persistResult {todo : List RuleResult}
    (h : LoopClocked env input observationId observedAt db (result :: todo))
    (hdb : CrmControl.persistResult env input observationId observedAt db result = .ok db') :
    LoopClocked env input observationId observedAt db' todo := by
  have hevolves := h.inv.persistResult h.drawn hdb
  obtain ⟨⟨db₁, caseId⟩, hcase, hinsert⟩ := bind_ok.1 hdb
  obtain ⟨hdecisions, hobservations, hcases⟩ := h.inv.mem_observeCase hcase
  obtain rfl := insertResult_ok hinsert
  obtain ⟨o, ho, hid, htime⟩ := h.row
  have hnew : ¬ Drawn env db.drawn (env.uuid db.drawn) := fun hd => hd.ne rfl
  have hsame : ∀ id, (Db.caseDecisions { db₁ with
      results := db₁.results ++ [resultRow (env.uuid db₁.drawn) observationId result caseId]
      drawn := db₁.drawn + 1 } id) = db.caseDecisions id := by
    intro id
    show db₁.decisions.filter _ = _
    rw [hdecisions]
    rfl
  refine ⟨hevolves.inv, h.drawn.mono hevolves.drawn, ?_, ?_, fun c hc hk => ?_, fun r hr c hc hk => ?_⟩
  · exact ⟨o, by show o ∈ db₁.observations; rw [hobservations]; exact ho, hid, htime⟩
  · intro o' ho'
    have ho'' : o' ∈ db₁.observations := ho'
    rw [hobservations] at ho''
    exact h.time o' ho''
  · rcases hcases c hc hk with hc | ⟨c₀, hc₀, hk₀, state, hstate, hne, rfl⟩ | ⟨state, hstate, rfl⟩
    · exact (h.clocked c hc hk).mono (fun o' ho' => by show o' ∈ db₁.observations; rwa [hobservations])
        (hsame _)
    · have htracked := (h.clocked c₀ hc₀ (by simp [hk₀])).observe
        (h.after result List.mem_cons_self c₀ hc₀ hk₀) ho hid htime hstate hne
        (assessmentHash env input result) (some c₀)
      exact htracked.mono (fun o' ho' => by show o' ∈ db₁.observations; rwa [hobservations]) (hsame _)
    · exact (h.inv.tracked_newCase hnew hdecisions hstate _).mono (fun _ ho' => ho') rfl
  · have htimes : ∀ o' ∈ db₁.observations, o'.id = observationId → o'.observedAt ≤ observedAt := by
      rw [hobservations]
      exact fun o' ho' hid' => (h.time o' ho' hid').le
    rcases hcases c hc (by simp [hk]) with hc | ⟨c₀, hc₀, hk₀, state, -, hne, rfl⟩ | ⟨state, -, rfl⟩
    · have hafter := h.after r (List.mem_cons_of_mem _ hr) c hc hk
      exact ⟨fun o' ho' => hafter.observation o' (hobservations ▸ ho'),
        fun d hd => hafter.decision d (hdecisions ▸ hd)⟩
    · have hafter := h.after result List.mem_cons_self c₀ hc₀ hk₀
      refine ⟨fun o' ho' hid' => htimes o' ho' (hid'.trans ?_), fun d hd hcase =>
        hafter.decision d (hdecisions ▸ hd) (hcase.trans (CaseRow.observe_id _ _ _ _))⟩
      simp [CaseRow.observe, hne]
    · refine ⟨fun o' ho' hid' => htimes o' ho' hid', fun d hd hcase => absurd ?_ hnew⟩
      have hd' : d ∈ db.decisions := hdecisions ▸ hd
      have hcase' : d.caseId = env.uuid db.drawn := hcase
      exact hcase' ▸ (h.inv.decision_drawn d hd').1

/-- By induction over the results. -/
theorem LoopClocked.persistResults {results : List RuleResult}
    (h : LoopClocked env input observationId observedAt db results)
    (hdb : CrmControl.persistResults env input observationId observedAt db results = .ok db') :
    LoopClocked env input observationId observedAt db' [] := by
  induction results generalizing db with
  | nil => exact Except.ok.inj hdb ▸ h
  | cons result results ih =>
    obtain ⟨db₁, hturn, hrest⟩ := bind_ok.1 hdb
    exact ih (h.persistResult hturn) hrest

/-- A bulk update leaves the live cases it does not close. -/
theorem Clocked.resolveWhere (h : Clocked db) (p : CaseRow → Bool) :
    Clocked (db.updateCases p (·.resolve observedAt observationId)) := by
  intro c hc hk
  obtain ⟨c₀, hc₀, rfl⟩ := Table.mem_updateWhere.1 hc
  split_ifs at hk ⊢
  · exact absurd rfl hk
  · exact (h c₀ hc₀ hk).mono (fun _ ho => ho) rfl

/-- The loop starts clocked when the observation comes after the cases it is about. -/
theorem loopClocked_start (h : Inv env db) (hclocked : Clocked db) {args : PersistArgs}
    {results : List RuleResult} (hclock : ClockForward db (.persist args))
    (hobs : args.input.observedAt = some observedAt)
    (hkeys : results.map RuleResult.key = args.results.map RuleResult.key)
    (hinsert : db.insertObservation
      (observationRow env args results (env.uuid db.drawn) observedAt) = .ok db') :
    LoopClocked env args.input (env.uuid db.drawn) observedAt db' results := by
  have hinv := h.insertObservation hinsert rfl
  obtain rfl := insertObservation_ok hinsert
  refine ⟨hinv, drawn_next db.drawn, ⟨_, List.mem_append_right _ (List.mem_singleton_self _), rfl, rfl⟩,
    fun o ho hid => ?_, fun c hc hk => (hclocked c hc hk).mono (fun o ho => List.mem_append_left _ ho) rfl,
    fun r hr c hc hk => ?_⟩
  · rcases List.mem_append.1 ho with ho | ho
    · exact absurd hid (h.observation_drawn o ho).ne
    · obtain rfl : o = _ := by simpa using ho
      rfl
  · have hafter := hclock observedAt hobs r.key (hkeys ▸ List.mem_map_of_mem hr) c hc hk
    refine ⟨fun o ho hid => ?_, hafter.decision⟩
    rcases List.mem_append.1 ho with ho | ho
    · exact hafter.observation o ho hid
    · obtain rfl : o = _ := by simpa using ho
      exact le_rfl

end Observe

theorem Clocked.persistObservation (hclocked : Clocked db) (h : Inv env db) {args : PersistArgs}
    {o : Observation} (hclock : ClockForward db (.persist args))
    (hdb : persistObservation env args db = .ok (db', o)) : Clocked db' := by
  rcases persistObservation_ok hdb with ⟨rfl, -⟩ | ⟨results, observedAt, hassess, -, -, hobs, hsave⟩
  · exact hclocked
  obtain ⟨rfl, db₁, db₂, hinsert, hresults, hevidence⟩ := saveObservation_ok hsave
  have hloop := (loopClocked_start h hclocked hclock hobs (assessOffers_keys hassess) hinsert).persistResults
    hresults
  have hbulk : Clocked (resolveUnlimited args.input results (env.uuid db.drawn) observedAt
      (resolveGoneTasks args.input (env.uuid db.drawn) observedAt db₂)) := by
    unfold resolveUnlimited resolveGoneTasks
    split_ifs
    · exact (hloop.clocked.resolveWhere _).resolveWhere _
    · exact hloop.clocked.resolveWhere _
    · exact hloop.clocked.resolveWhere _
    · exact hloop.clocked
  unfold requestEvidence at hevidence
  split_ifs at hevidence
  · obtain rfl := insertEvidence_ok hevidence
    exact fun c hc hk => (hbulk c hc hk).mono (fun _ ho => ho) rfl
  · exact Except.ok.inj hevidence ▸ hbulk

/-! ## A decision keeps the cases tracked -/

/-- The row of a decision is later than every decision on its observation. -/
theorem lastDecision_lt {id observationId : String} {d : Decision} (hd : d ∈ db.decisions)
    (hcase : d.caseId = id) (hobs : d.observationId = observationId) (now : ℤ) :
    d.createdAt < decisionTime now (db.lastDecision id observationId) := by
  cases hlast : db.lastDecision id observationId with
  | none =>
    have hempty := newestDecision_none.1 hlast
    exact absurd (by simpa using ⟨hcase, hobs⟩) (List.filter_eq_nil_iff.1 hempty d hd)
  | some last =>
    have hle := (newestDecision_some hlast).2 d (List.mem_filter.2 ⟨hd, by simpa using ⟨hcase, hobs⟩⟩)
    simp only [decisionTime, Option.map_some, Option.getD_some]
    omega

/-- A tracked case stays tracked when a decision on its latest observation is added that is later
than all others. -/
theorem Tracked.decided {c : CaseRow} (h : Tracked db c) {row : Decision} {body : DecisionInput}
    {confirmedAt : ℤ} (hobservations : db'.observations = db.observations)
    (hdecisions : db'.caseDecisions c.id = db.caseDecisions c.id ++ [row])
    (hobs : row.observationId = c.latestObservationId)
    (hlater : ∀ d ∈ db.caseDecisions c.id, d.createdAt < row.createdAt)
    (haction : row.action = body.action) (hreview : body.action.isReview = false)
    (hvalid : body.action = .exempt → ∃ v, body.validUntil = some v ∧ row.validUntil = some v) :
    Tracked db' (c.decided body confirmedAt) := by
  have hdecisions' : db'.caseDecisions (c.decided body confirmedAt).id =
      db.caseDecisions c.id ++ [row] := hdecisions
  refine ⟨?_, fun d hd => ?_, ?_⟩
  · rw [hdecisions']
    refine List.pairwise_append.2 ⟨h.sorted, List.pairwise_singleton _ _, fun d hd e he => ?_⟩
    obtain rfl : e = row := by simpa using he
    exact hlater d hd
  · rw [hdecisions'] at hd
    rw [hobservations]
    rcases List.mem_append.1 hd with hd | hd
    · exact h.dated d hd
    · obtain rfl : d = row := by simpa using hd
      exact Or.inl hobs
  · rw [hdecisions', List.getLast?_append_of_ne_nil _ (List.cons_ne_nil _ _), List.getLast?_singleton]
    cases hact : body.action with
    | confirm => simp [Follows, haction, hact, CaseRow.decided, decidedStatus]
    | exempt =>
      obtain ⟨v, hv, hrow⟩ := hvalid hact
      simp [Follows, haction, hact, hv, hrow, CaseRow.decided, decidedStatus]
    | dispute => simp [Follows, haction, hact, CaseRow.decided, decidedStatus]
    | verify outcome => simp [hact, DecisionAction.isReview] at hreview

theorem Clocked.decide (hclocked : Clocked db) (h : Inv env db) {access : Access} {id : String}
    {body : DecisionInput} {clock : DecisionClock} (hclock : ClockForward db (.decide access id body clock))
    (hdb : Service.decide env access id body clock db = .ok db') : Clocked db' := by
  obtain ⟨item, o, hitem, ho, hrefusal, hdb'⟩ := decide_ok hdb
  obtain ⟨-, haction, hvalid⟩ := decideRefusal_none hrefusal
  have hitem' := List.mem_of_find?_eq_some hitem
  have hid : item.id = id := by simpa using List.find?_some hitem
  have hoid : o.id = item.latestObservationId := by simpa using List.find?_some ho
  generalize hrow : decisionRow env db access o id body.action (trim body.reason)
    (if body.action = .exempt then body.validUntil else none)
    (decisionTime clock.decidedAt (db.lastDecision id o.id)) = row at hdb'
  have hrowCase : row.caseId = id := hrow ▸ rfl
  have hrowAction : row.action = body.action := hrow ▸ rfl
  subst hdb'
  intro c' hc' hk'
  obtain ⟨c, hc, rfl⟩ := Table.mem_updateWhere.1 hc'
  by_cases hcid : c.id = id
  · -- the case decided on: its decisions are the old ones and the new one
    obtain rfl : c = item := h.eq_of_id hc hitem' (hcid.trans hid.symm)
    rw [if_pos (by simp [hcid])] at hk' ⊢
    have htracked := hclocked c hc hk'
    refine htracked.decided rfl ?_ (hrow ▸ hoid) (fun d hd => ?_) hrowAction haction fun hact => ?_
    · show (db.decisions ++ [row]).filter _ = _
      rw [List.filter_append]
      simp [hrowCase, hrowAction, haction, hcid, Db.caseDecisions]
    · obtain ⟨hd', hcase, -⟩ := mem_caseDecisions.1 hd
      rcases htracked.dated d hd with hlatest | ⟨o₁, ho₁, hid₁, hle⟩
      · exact hrow ▸ lastDecision_lt hd' (hcase.trans hcid) (hlatest.trans hoid.symm) clock.decidedAt
      · have hlt := hclock c hc hcid o₁ ho₁ hid₁
        have hdecided : clock.decidedAt ≤ row.createdAt := hrow ▸ le_max_left _ _
        omega
    · obtain ⟨v, hv, -⟩ := hvalid hact
      exact ⟨v, hv, by rw [← hrow]; simp [decisionRow, hact, hv]⟩
  · rw [if_neg (by simp [hcid])] at hk' ⊢
    refine (hclocked c hc hk').mono (fun _ ho => ho) ?_
    show (db.decisions ++ [row]).filter _ = _
    rw [List.filter_append]
    simp [hrowCase, Ne.symm hcid, Db.caseDecisions]

/-- Manual reviews and new cases without an active key do not concern the live cases. -/
theorem Clocked.reviewResult (hclocked : Clocked db) {access : Access}
    {observationId resultId : String} {body : ManualReviewInput} {now : ℤ}
    (hdb : Service.reviewResult env access observationId resultId body now db = .ok db') :
    Clocked db' := by
  obtain ⟨o, result, db₁, caseId, decision, -, -, hcase, haction, -, -, hlast⟩ := reviewResult_ok hdb
  have hclocked₁ : Clocked db₁ := by
    unfold CrmControl.ensureCase at hcase
    cases hlink : result.caseId with
    | some id =>
      simp only [hlink, Except.ok.injEq, Prod.mk.injEq] at hcase
      exact hcase.1 ▸ hclocked
    | none =>
      simp only [hlink, bind_ok, Except.ok.injEq, Prod.mk.injEq] at hcase
      obtain ⟨db₂, hinsert, rfl, -⟩ := hcase
      obtain ⟨rfl, -, -⟩ := insertCase_ok hinsert
      intro c hc hk
      rcases List.mem_append.1 hc with hc | hc
      · exact (hclocked c hc hk).mono (fun _ ho => ho) rfl
      · obtain rfl : c = _ := by simpa using hc
        exact absurd rfl hk
  have hdecision : Clocked (db₁.insertDecision decision) := by
    intro c hc hk
    refine (hclocked₁ c hc hk).mono (fun _ ho => ho) ?_
    show (db₁.decisions ++ [decision]).filter _ = _
    rw [List.filter_append]
    simp [haction, DecisionAction.isReview, Db.caseDecisions]
  rcases hlast with rfl | hevidence
  · exact hdecision
  · unfold ensureEvidenceForObservation at hevidence
    split at hevidence
    · exact Except.ok.inj hevidence ▸ hdecision
    · obtain rfl := insertEvidence_ok hevidence
      exact fun c hc hk => (hdecision c hc hk).mono (fun _ ho => ho) rfl

/-! ## Runs -/

/-- **Step lemma.** -/
theorem clocked_step {op : Op} (h : Inv env db) (hclocked : Clocked db) (hclock : ClockForward db op)
    (hstep : step env db op = some db') : Clocked db' := by
  cases op with
  | persist args =>
    obtain rfl := Option.some.inj hstep
    refine commit_induction hclocked fun t ht => ?_
    obtain ⟨⟨t', o⟩, hpersist, rfl⟩ := map_ok.1 ht
    exact hclocked.persistObservation h hclock hpersist
  | decide access id body clock =>
    obtain rfl := Option.some.inj hstep
    exact commit_induction hclocked fun t ht => hclocked.decide h hclock ht
  | review access observationId resultId body now =>
    obtain rfl := Option.some.inj hstep
    exact commit_induction hclocked fun t ht => hclocked.reviewResult ht
  | queue runs =>
    obtain rfl := Option.some.inj hstep
    exact fun c hc hk => (hclocked c hc hk).mono (fun _ ho => ho) rfl
  | analyse outcomes =>
    obtain rfl := Option.some.inj hstep
    exact fun c hc hk => (hclocked c hc hk).mono (fun _ ho => ho) rfl

/-- **Run lemma.** While the clock moves forward every live case is tracked. -/
theorem clocked_of_reachable (h : Run.ReachableVia (step env) ClockForward {} db) :
    Inv env db ∧ Clocked db := by
  refine h.invariant (I := fun s => Inv env s ∧ Clocked s) ⟨inv_empty, by simp [Clocked]⟩ ?_
  exact fun s op t hs hclock hstep => ⟨inv_step hs.1 hstep, clocked_step hs.1 hs.2 hclock hstep⟩

end AmoAnalytics.CrmControl
