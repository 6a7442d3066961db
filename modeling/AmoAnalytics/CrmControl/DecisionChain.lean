import AmoAnalytics.CrmControl.DecisionCalls

/-!
# Decisions form a chain

A caller that has read the last decision on a case under its lock writes while that decision is still
the last one, because whoever adds a decision to the case holds the lock or has just created the case.
So every accepted decision was made by a caller who had seen the accepted decision before it.
-/

namespace AmoAnalytics.CrmControl

open Transaction

variable {env : Env} {db db' : Db}

/-! ## The last decision -/

/-- A decision later than all others is the newest. -/
theorem newestDecision_append {ds : List Decision} {d : Decision}
    (h : ∀ e ∈ ds, e.createdAt < d.createdAt) : newestDecision (ds ++ [d]) = some d := by
  rcases hnewest : newestDecision (ds ++ [d]) with _ | e
  · exact absurd (newestDecision_none.1 hnewest) (by simp)
  · obtain ⟨he, hmax⟩ := newestDecision_some hnewest
    rcases List.mem_append.1 he with hold | hnew
    · exact absurd (hmax d (by simp)) (h e hold).not_ge
    · rw [List.mem_singleton.1 hnew]

/-- A new decision on another case or observation does not count. -/
theorem lastDecision_append_of_ne {d : Decision} (hdecisions : db'.decisions = db.decisions ++ [d])
    {caseId observationId : String} (hne : ¬ (d.caseId = caseId ∧ d.observationId = observationId)) :
    db'.lastDecision caseId observationId = db.lastDecision caseId observationId := by
  unfold Db.lastDecision
  rw [hdecisions, List.filter_append, List.filter_cons_of_neg (by simpa using hne), List.filter_nil,
    List.append_nil]

theorem lastDecision_append {d : Decision} (hdecisions : db'.decisions = db.decisions ++ [d])
    (hlater : ∀ e ∈ db.decisions, e.caseId = d.caseId → e.observationId = d.observationId →
      e.createdAt < d.createdAt) :
    db'.lastDecision d.caseId d.observationId = some d := by
  unfold Db.lastDecision
  rw [hdecisions, List.filter_append, List.filter_cons_of_pos (by simp), List.filter_nil]
  refine newestDecision_append fun e he => ?_
  obtain ⟨hmem, hpair⟩ := List.mem_filter.1 he
  obtain ⟨hcase, hobs⟩ := of_decide_eq_true hpair
  exact hlater e hmem hcase hobs

/-! ## The identifiers of cases -/

/-- The identifiers of cases that the tables name are drawn, so a new case has a new one. -/
structure CaseIdsDrawn (env : Env) (db : Db) : Prop where
  cases : ∀ c ∈ db.cases, Drawn env db.drawn c.id
  results : ∀ r ∈ db.results, ∀ k, r.caseId = some k → Drawn env db.drawn k
  decisions : ∀ d ∈ db.decisions, Drawn env db.drawn d.caseId

theorem Inv.caseIdsDrawn (h : Inv env db) : CaseIdsDrawn env db where
  cases := h.case_drawn
  results := fun r hr => (h.result_drawn r hr).case
  decisions := fun d hd => (h.decision_drawn d hd).1

theorem CaseIdsDrawn.congr (h : CaseIdsDrawn env db) (hcases : db'.cases = db.cases)
    (hresults : db'.results = db.results) (hdecisions : db'.decisions = db.decisions)
    (hdrawn : db.drawn ≤ db'.drawn) : CaseIdsDrawn env db' where
  cases := fun c hc => (h.cases c (hcases ▸ hc)).mono hdrawn
  results := fun r hr k hk => (h.results r (hresults ▸ hr) k hk).mono hdrawn
  decisions := fun d hd => (h.decisions d (hdecisions ▸ hd)).mono hdrawn

theorem CaseIdsDrawn.insertDecision (h : CaseIdsDrawn env db) {d : Decision}
    (hd : Drawn env db.drawn d.caseId) : CaseIdsDrawn env (db.insertDecision d) where
  cases := fun c hc => (h.cases c hc).mono (Nat.le_succ _)
  results := fun r hr k hk => (h.results r hr k hk).mono (Nat.le_succ _)
  decisions := by
    refine List.forall_mem_append.2 ⟨fun e he => (h.decisions e he).mono (Nat.le_succ _), ?_⟩
    exact List.forall_mem_singleton.2 (hd.mono (Nat.le_succ _))

theorem CaseIdsDrawn.decided (h : CaseIdsDrawn env db) (p : CaseRow → Bool) (body : DecisionInput)
    (confirmedAt : ℤ) : CaseIdsDrawn env (db.updateCases p (·.decided body confirmedAt)) where
  cases := by
    intro c hc
    obtain ⟨c₀, hc₀, rfl⟩ := Table.mem_updateWhere.1 hc
    split_ifs <;> exact h.cases c₀ hc₀
  results := h.results
  decisions := h.decisions

/-- What `ensureCase` gives a result: its case, or a new one. -/
theorem CaseIdsDrawn.ensureCase (h : CaseIdsDrawn env db) {o : Observation} {result : ResultRow}
    {caseId : String} (hresult : ∀ k, result.caseId = some k → Drawn env db.drawn k)
    (hdb : ensureCase env o result db = .ok (db', caseId)) :
    CaseIdsDrawn env db' ∧ db'.decisions = db.decisions ∧ db.drawn ≤ db'.drawn ∧
      Drawn env db'.drawn caseId ∧
      (result.caseId = some caseId ∨ result.caseId = none ∧ ¬ Drawn env db.drawn caseId) := by
  unfold CrmControl.ensureCase at hdb
  rcases hcase : result.caseId with _ | id
  · simp only [hcase, bind_ok, Except.ok.injEq, Prod.mk.injEq] at hdb
    obtain ⟨db₁, hinsert, rfl, rfl⟩ := hdb
    obtain ⟨rfl, -, -⟩ := insertCase_ok hinsert
    refine ⟨⟨?_, ?_, ?_⟩, rfl, Nat.le_succ _, drawn_next _, Or.inr ⟨rfl, fun hdrawn => hdrawn.ne rfl⟩⟩
    · refine List.forall_mem_append.2 ⟨fun c hc => (h.cases c hc).mono (Nat.le_succ _), ?_⟩
      exact List.forall_mem_singleton.2 (drawn_next _)
    · intro r hr k hk
      obtain ⟨r₀, hr₀, rfl⟩ := Table.mem_updateWhere.1 hr
      split_ifs at hk
      · exact Option.some.inj hk ▸ drawn_next _
      · exact (h.results r₀ hr₀ k hk).mono (Nat.le_succ _)
    · exact fun d hd => (h.decisions d hd).mono (Nat.le_succ _)
  · simp only [hcase, Except.ok.injEq, Prod.mk.injEq] at hdb
    obtain ⟨rfl, rfl⟩ := hdb
    exact ⟨h, rfl, le_rfl, hresult _ hcase, Or.inl rfl⟩

/-! ## An accepted decision -/

/-- What an accepted call does, for a caller that holds the lock on `lock`: it adds one decision,
later than the others on its case and observation, and `seen` was the last of them. -/
structure Accepts (env : Env) (db db' : Db) (lock : Option String) (d : Decision)
    (seen : Option String) : Prop where
  decisions : db'.decisions = db.decisions ++ [d]
  drawn : db.drawn ≤ db'.drawn
  ids : CaseIdsDrawn env db'
  locked : lock = some d.caseId ∨ ¬ Drawn env db.drawn d.caseId
  seen : seen = (db.lastDecision d.caseId d.observationId).map (·.id)
  later : ∀ e ∈ db.decisions, e.caseId = d.caseId → e.observationId = d.observationId →
    e.createdAt < d.createdAt

theorem DecideCall.commit_ok (h : CaseIdsDrawn env db) {call : DecideCall} {clock : DecisionClock}
    {d : Decision} (hitem : Drawn env db.drawn call.item.id)
    (hdb : call.commit env (db.lastDecision call.item.id call.o.id) clock db = .ok (db', d)) :
    Accepts env db db' (some call.item.id) d call.expected := by
  unfold DecideCall.commit at hdb
  dsimp only at hdb
  split at hdb
  · cases hdb
  rename_i hseen
  split at hdb
  · cases hdb
  cases hdb
  refine ⟨rfl, Nat.le_succ _, (h.decided _ _ _).insertDecision hitem, Or.inl rfl,
    (not_not.1 hseen).symm, ?_⟩
  exact fun e he hcase hobs => lastDecision_lt he hcase hobs clock.decidedAt

theorem ensureEvidence_ok {o : Observation} (h : ensureEvidenceForObservation env o db = .ok db') :
    db'.decisions = db.decisions ∧ db'.cases = db.cases ∧ db'.results = db.results ∧
      db.drawn ≤ db'.drawn := by
  unfold ensureEvidenceForObservation at h
  split_ifs at h
  · cases h
    exact ⟨rfl, rfl, rfl, le_rfl⟩
  · obtain rfl := insertEvidence_ok h
    exact ⟨rfl, rfl, rfl, Nat.le_succ _⟩

theorem ReviewCall.commit_ok (h : CaseIdsDrawn env db) {call : ReviewCall} {result : ResultRow}
    {now : ℤ} {d : Decision} (hresult : ∀ k, result.caseId = some k → Drawn env db.drawn k)
    (hdb : call.commit env result (result.caseId.bind fun caseId => db.lastDecision caseId call.o.id)
      now db = .ok (db', d)) :
    Accepts env db db' result.caseId d call.body.expectedDecisionId := by
  unfold ReviewCall.commit at hdb
  obtain ⟨⟨db₁, caseId⟩, hcase, hdb⟩ := bind_ok.1 hdb
  obtain ⟨hids, hdecisions, hdrawn, hcaseId, hlock⟩ := h.ensureCase hresult hcase
  -- A new case has no decisions yet.
  have hlast : (result.caseId.bind fun caseId => db.lastDecision caseId call.o.id) =
      db.lastDecision caseId call.o.id := by
    rcases hlock with hold | ⟨hnone, hnew⟩
    · rw [hold, Option.bind_some]
    · rw [hnone, Option.bind_none]
      refine (newestDecision_none.2 (List.filter_eq_nil_iff.2 fun e he hpair => ?_)).symm
      exact hnew ((of_decide_eq_true hpair).1 ▸ h.decisions e he)
  rw [hlast] at hdb
  have haccepts : ∀ {row : Decision}, row = call.row env caseId (db.lastDecision caseId call.o.id) now db₁ →
      (db.lastDecision caseId call.o.id).map (·.id) = call.body.expectedDecisionId →
      Accepts env db (db₁.insertDecision row) result.caseId row call.body.expectedDecisionId := by
    rintro row rfl hseen
    refine ⟨by rw [← hdecisions]; rfl, hdrawn.trans (Nat.le_succ _), hids.insertDecision hcaseId, ?_,
      hseen.symm, fun e he hcase hobs => lastDecision_lt he hcase hobs now⟩
    exact hlock.imp id And.right
  dsimp only at hdb
  split at hdb
  · cases hdb
  rename_i hseen
  split at hdb
  · obtain ⟨db₂, hevidence, hdb⟩ := bind_ok.1 hdb
    cases hdb
    obtain ⟨hdecisions₂, hcases₂, hresults₂, hdrawn₂⟩ := ensureEvidence_ok hevidence
    have h₁ := haccepts rfl (not_not.1 hseen)
    exact { h₁ with
      decisions := hdecisions₂.trans h₁.decisions
      drawn := h₁.drawn.trans hdrawn₂
      ids := h₁.ids.congr hcases₂ hresults₂ hdecisions₂ hdrawn₂ }
  · cases hdb
    exact haccepts rfl (not_not.1 hseen)

/-! ## Steps -/

/-- What a caller knows between two statements: identifiers that it has read are drawn, and the last
decision it has read under the lock is still the last. -/
def KnowsChain (env : Env) (db : Db) : DecisionThread → Prop
  | .caseRead _ item _ => Drawn env db.drawn item.id
  | .deciding call => Drawn env db.drawn call.item.id
  | .decideLocked call => Drawn env db.drawn call.item.id
  | .decideRead call last => Drawn env db.drawn call.item.id ∧
      last = db.lastDecision call.item.id call.o.id
  | .resultRead _ result => ∀ k, result.caseId = some k → Drawn env db.drawn k
  | .reviewLocked _ result => ∀ k, result.caseId = some k → Drawn env db.drawn k
  | .reviewRead call result last => (∀ k, result.caseId = some k → Drawn env db.drawn k) ∧
      last = result.caseId.bind fun caseId => db.lastDecision caseId call.o.id
  | _ => True

/-- What a statement does to the locks on cases: nothing, a free case is locked, or all that the
caller holds is released. -/
inductive LockMove (store store' : CallStore) (thread thread' : DecisionThread) : Prop
  | same (hlocks : store'.caseLocks = store.caseLocks) (hthread : thread'.caseLock = thread.caseLock)
  | lock (c : String) (hfree : c ∉ store.caseLocks) (hlocks : store'.caseLocks = c :: store.caseLocks)
      (hthread : thread'.caseLock = some c)
  | release (hlocks : store'.caseLocks = store.caseLocks.filter fun c => thread.caseLock ≠ some c)
      (hthread : thread'.caseLock = none)

/-- A statement accepts a decision, or leaves the store and the accepted decisions as they are. -/
inductive CallChange (env : Env) (store store' : CallStore) (thread thread' : DecisionThread) : Prop
  | read (hdb : store'.db = store.db) (haccepted : store'.accepted = store.accepted)
      (hknows : KnowsChain env store.db thread')
  | accept (d : Decision) (seen : Option String)
      (haccepts : Accepts env store.db store'.db thread.caseLock d seen)
      (haccepted : store'.accepted = store.accepted ++ [⟨d, seen⟩]) (hthread : thread' = .idle)

section Steps

variable {store store' : CallStore} {thread thread' : DecisionThread} {a : DecisionAct}

/-- The end of a transaction. -/
theorem finish_change {seen : Option String} {outcome : Except ServiceError (Db × Decision)}
    (hok : ∀ db' d, outcome = .ok (db', d) → Accepts env store.db db' thread.caseLock d seen) :
    CallChange env store (store.finish thread seen outcome) thread .idle ∧
      LockMove store (store.finish thread seen outcome) thread .idle := by
  rcases outcome with e | ⟨db', d⟩
  · exact ⟨.read rfl rfl trivial, .release rfl rfl⟩
  · exact ⟨.accept d seen (hok db' d rfl) rfl rfl, .release rfl rfl⟩

theorem decisionAct_spec (hids : CaseIdsDrawn env store.db) (hknows : KnowsChain env store.db thread)
    (hact : decisionAct env store thread a = some (store', thread')) :
    CallChange env store store' thread thread' ∧ LockMove store store' thread thread' := by
  have hread : ∀ {next : DecisionThread}, KnowsChain env store.db next → next.caseLock = thread.caseLock →
      CallChange env store store thread next ∧ LockMove store store thread next :=
    fun hnext hlock => ⟨.read rfl rfl hnext, .same rfl hlock⟩
  unfold decisionAct at hact
  split at hact
  case h_1 =>
    split at hact
    · rename_i item hitem
      cases hact
      exact hread (hids.cases item (List.mem_of_find?_eq_some hitem)) rfl
    · cases hact
      exact hread trivial rfl
  case h_2 =>
    split at hact
    · cases hact
      exact hread trivial rfl
    · split at hact <;> cases hact
      · exact hread trivial rfl
      · exact hread hknows rfl
  case h_3 call _ =>
    split at hact
    · cases hact
    · rename_i hfree
      cases hact
      exact ⟨.read rfl rfl hknows, .lock call.item.id hfree rfl rfl⟩
  case h_4 => cases hact; exact hread ⟨hknows, rfl⟩ rfl
  case h_5 call last clock =>
    cases hact
    obtain ⟨hitem, rfl⟩ := hknows
    exact finish_change fun db' d hdb => DecideCall.commit_ok hids hitem hdb
  case h_6 => split at hact <;> cases hact <;> exact hread trivial rfl
  case h_7 =>
    split at hact
    · cases hact
    · cases hact
      exact ⟨.read rfl rfl trivial, .same rfl rfl⟩
  case h_8 =>
    split at hact
    · rename_i result hresult
      cases hact
      have hmem := List.mem_of_find?_eq_some (Option.filter_eq_some_iff.1 hresult).1
      exact hread (hids.results result hmem) rfl
    · cases hact
      exact ⟨.read rfl rfl trivial, .release rfl rfl⟩
  case h_9 call result _ =>
    split at hact
    · rename_i caseId hcase
      split at hact
      · cases hact
      · rename_i hfree
        cases hact
        exact ⟨.read rfl rfl hknows, .lock caseId hfree rfl hcase⟩
    · rename_i hcase
      cases hact
      exact hread hknows hcase
  case h_10 => cases hact; exact hread ⟨hknows, rfl⟩ rfl
  case h_11 call result last clock =>
    cases hact
    obtain ⟨hresult, rfl⟩ := hknows
    exact finish_change fun db' d hdb => ReviewCall.commit_ok hids hresult hdb
  case h_12 => cases hact; exact ⟨.read rfl rfl trivial, .release rfl rfl⟩
  case h_13 => cases hact

end Steps

/-- What another caller knows survives a decision on a case that it has not locked. -/
theorem KnowsChain.accept {thread : DecisionThread} {lock : Option String} {d : Decision}
    {seen : Option String} (h : KnowsChain env db thread) (haccepts : Accepts env db db' lock d seen)
    (hother : ∀ c, thread.caseLock = some c → c ≠ d.caseId) : KnowsChain env db' thread := by
  have hdrawn : ∀ {s : String}, Drawn env db.drawn s → Drawn env db'.drawn s :=
    fun hs => hs.mono haccepts.drawn
  cases thread with
  | caseRead => exact hdrawn h
  | deciding => exact hdrawn h
  | decideLocked => exact hdrawn h
  | decideRead call last =>
    refine ⟨hdrawn h.1, h.2.trans (lastDecision_append_of_ne haccepts.decisions fun hpair => ?_).symm⟩
    exact hother _ rfl hpair.1.symm
  | resultRead => exact fun k hk => hdrawn (h k hk)
  | reviewLocked => exact fun k hk => hdrawn (h k hk)
  | reviewRead call result last =>
    refine ⟨fun k hk => hdrawn (h.1 k hk), h.2.trans ?_⟩
    rcases hcase : result.caseId with _ | caseId
    · rfl
    · exact (lastDecision_append_of_ne haccepts.decisions fun hpair => hother _ hcase hpair.1.symm).symm
  | _ => trivial

/-- A caller has locked only cases whose identifiers are drawn. -/
theorem KnowsChain.caseLock_drawn {thread : DecisionThread} (h : KnowsChain env db thread) {c : String}
    (hlock : thread.caseLock = some c) : Drawn env db.drawn c := by
  cases thread with
  | decideLocked => exact Option.some.inj hlock ▸ h
  | decideRead => exact Option.some.inj hlock ▸ h.1
  | reviewLocked => exact h c hlock
  | reviewRead => exact h.1 c hlock
  | _ => cases hlock

/-! ## The chain -/

/-- The accepted decisions on a case and an observation. -/
def CallStore.chain (store : CallStore) (caseId observationId : String) : List Accepted :=
  store.accepted.filter fun a => a.decision.caseId = caseId ∧ a.decision.observationId = observationId

/-- The decision at the end of a chain that began after `first`. -/
def endOf (first : Option Decision) (chain : List Accepted) : Option Decision :=
  (chain.getLast?.map (·.decision)).or first

/-- The decisions accepted on a case and an observation since `db₀`. -/
structure ChainOk (db₀ : Db) (store : CallStore) (caseId observationId : String) : Prop where
  last : store.db.lastDecision caseId observationId =
    endOf (db₀.lastDecision caseId observationId) (store.chain caseId observationId)
  increasing : (store.chain caseId observationId).Pairwise fun a b =>
    a.decision.createdAt < b.decision.createdAt
  later : ∀ a ∈ store.chain caseId observationId, a.decision ∈ store.db.decisions
  seen : ∀ pre a post, store.chain caseId observationId = pre ++ a :: post →
    a.seen = (endOf (db₀.lastDecision caseId observationId) pre).map (·.id)

theorem chainOk_start (db₀ : Db) (caseId observationId : String) :
    ChainOk db₀ { db := db₀ } caseId observationId where
  last := rfl
  increasing := List.Pairwise.nil
  later := nofun
  seen := fun _ _ _ h => by simp [CallStore.chain] at h

/-- An accepted decision goes to the end of its chain. -/
theorem ChainOk.accept {db₀ : Db} {store store' : CallStore} {lock : Option String} {d : Decision}
    {seen : Option String} {caseId observationId : String} (h : ChainOk db₀ store caseId observationId)
    (haccepts : Accepts env store.db store'.db lock d seen)
    (haccepted : store'.accepted = store.accepted ++ [⟨d, seen⟩]) :
    ChainOk db₀ store' caseId observationId := by
  have hkept : ∀ a ∈ store.chain caseId observationId, a.decision ∈ store'.db.decisions :=
    fun a ha => haccepts.decisions ▸ List.mem_append_left _ (h.later a ha)
  by_cases hpair : d.caseId = caseId ∧ d.observationId = observationId
  · obtain ⟨rfl, rfl⟩ := hpair
    have hchain : store'.chain d.caseId d.observationId =
        store.chain d.caseId d.observationId ++ [⟨d, seen⟩] := by
      unfold CallStore.chain
      rw [haccepted, List.filter_append, List.filter_cons_of_pos (by simp), List.filter_nil]
    refine ⟨?_, ?_, ?_, ?_⟩
    · rw [lastDecision_append haccepts.decisions haccepts.later, hchain, endOf, List.getLast?_concat]
      rfl
    · rw [hchain]
      refine List.pairwise_append.2 ⟨h.increasing, List.pairwise_singleton _ _, fun a ha b hb => ?_⟩
      rw [List.mem_singleton.1 hb]
      obtain ⟨hcase, hobs⟩ := of_decide_eq_true (List.mem_filter.1 ha).2
      exact haccepts.later _ (h.later a ha) hcase hobs
    · rw [hchain]
      refine List.forall_mem_append.2 ⟨hkept, List.forall_mem_singleton.2 ?_⟩
      rw [haccepts.decisions]
      exact List.mem_append_right _ (List.mem_singleton_self d)
    · intro pre a post hsplit
      rw [hchain] at hsplit
      rcases List.eq_nil_or_concat post with rfl | ⟨post, b, rfl⟩
      · -- The new decision: its caller had seen the end of the chain before it.
        obtain ⟨rfl, hlast⟩ := List.append_inj' hsplit rfl
        cases hlast
        show seen = _
        rw [haccepts.seen, h.last]
      · rw [List.concat_eq_append, ← List.cons_append, ← List.append_assoc] at hsplit
        exact h.seen pre a post (List.append_inj' hsplit rfl).1
  · have hchain : store'.chain caseId observationId = store.chain caseId observationId := by
      unfold CallStore.chain
      rw [haccepted, List.filter_append, List.filter_cons_of_neg (by simpa using hpair), List.filter_nil,
        List.append_nil]
    refine ⟨?_, by rw [hchain]; exact h.increasing, by rw [hchain]; exact hkept, by rw [hchain]; exact h.seen⟩
    rw [hchain, lastDecision_append_of_ne haccepts.decisions hpair]
    exact h.last

/-! ## Runs -/

/-- What holds in every state: who holds a lock has it alone, and the decisions are those of the start
and the accepted ones, in chains. -/
structure CallInv (env : Env) (db₀ : Db) (w : World CallStore DecisionThread) : Prop where
  ids : CaseIdsDrawn env w.store.db
  knows : ∀ i, KnowsChain env w.store.db (w.locals i)
  held : ∀ i c, (w.locals i).caseLock = some c → c ∈ w.store.caseLocks
  exclusive : ∀ i j, i ≠ j → ∀ c, (w.locals i).caseLock = some c → (w.locals j).caseLock ≠ some c
  decisions : w.store.db.decisions = db₀.decisions ++ w.store.accepted.map (·.decision)
  chain : ∀ caseId observationId, ChainOk db₀ w.store caseId observationId

theorem callInv_start {db₀ : Db} (h : CaseIdsDrawn env db₀) :
    CallInv env db₀ (.start { db := db₀ } .idle) where
  ids := h
  knows := fun _ => trivial
  held := fun _ _ hlock => nomatch hlock
  exclusive := fun _ _ _ _ hlock => nomatch hlock
  decisions := (List.append_nil _).symm
  chain := chainOk_start db₀

/-- The locks after a statement: every caller holds what is locked for it, and nobody else does. -/
theorem CallInv.locks {db₀ : Db} {w : World CallStore DecisionThread} (h : CallInv env db₀ w) {i : ℕ}
    {store' : CallStore} {thread' : DecisionThread}
    (hmove : LockMove w.store store' (w.locals i) thread') :
    (∀ j c, (Function.update w.locals i thread' j).caseLock = some c → c ∈ store'.caseLocks) ∧
      ∀ j k, j ≠ k → ∀ c, (Function.update w.locals i thread' j).caseLock = some c →
        (Function.update w.locals i thread' k).caseLock ≠ some c := by
  have hsymm : ∀ a b : DecisionThread, (∀ c, a.caseLock = some c → b.caseLock ≠ some c) →
      ∀ c, b.caseLock = some c → a.caseLock ≠ some c := fun a b hab c hb ha => hab c ha hb
  have hothers : ∀ j k, j ≠ k → ∀ c, (w.locals j).caseLock = some c → (w.locals k).caseLock ≠ some c :=
    h.exclusive
  cases hmove with
  | same hlocks hthread =>
    refine ⟨World.forall_update (P := fun t : DecisionThread => ∀ c, t.caseLock = some c →
      c ∈ store'.caseLocks) ?_ ?_, World.forall_update₂ (P := fun a b : DecisionThread =>
      ∀ c, a.caseLock = some c → b.caseLock ≠ some c) hsymm ?_ hothers⟩
    · rw [hlocks, hthread]
      exact h.held i
    · rw [hlocks]
      exact fun j _ => h.held j
    · rw [hthread]
      exact fun j hj => h.exclusive i j hj.symm
  | lock c hfree hlocks hthread =>
    refine ⟨World.forall_update (P := fun t : DecisionThread => ∀ c, t.caseLock = some c →
      c ∈ store'.caseLocks) ?_ ?_, World.forall_update₂ (P := fun a b : DecisionThread =>
      ∀ c, a.caseLock = some c → b.caseLock ≠ some c) hsymm ?_ hothers⟩
    · rw [hlocks, hthread]
      exact fun c' hc' => Option.some.inj hc' ▸ List.mem_cons_self
    · rw [hlocks]
      exact fun j _ c' hc' => List.mem_cons_of_mem _ (h.held j c' hc')
    · rw [hthread]
      exact fun j _ c' hc' hj' => hfree (Option.some.inj hc' ▸ h.held j c' hj')
  | release hlocks hthread =>
    refine ⟨World.forall_update (P := fun t : DecisionThread => ∀ c, t.caseLock = some c →
      c ∈ store'.caseLocks) ?_ ?_, World.forall_update₂ (P := fun a b : DecisionThread =>
      ∀ c, a.caseLock = some c → b.caseLock ≠ some c) hsymm ?_ hothers⟩
    · rw [hthread]
      exact nofun
    · rw [hlocks]
      exact fun j hj c hc => List.mem_filter.2 ⟨h.held j c hc,
        decide_eq_true (h.exclusive j i hj c hc)⟩
    · rw [hthread]
      exact fun _ _ => nofun

/-- **Step lemma.** -/
theorem CallInv.step {db₀ : Db} {w w' : World CallStore DecisionThread} {a : ℕ × DecisionAct}
    (h : CallInv env db₀ w) (hstep : World.step (decisionAct env) w a = some w') : CallInv env db₀ w' := by
  obtain ⟨i, action⟩ := a
  obtain ⟨store', thread', hact, rfl⟩ := World.step_eq_some.1 hstep
  obtain ⟨hchange, hmove⟩ := decisionAct_spec h.ids (h.knows i) hact
  obtain ⟨hheld, hexclusive⟩ := h.locks hmove
  cases hchange with
  | read hdb haccepted hknows =>
    refine ⟨hdb ▸ h.ids, ?_, hheld, hexclusive, ?_, fun caseId observationId => ?_⟩
    · show ∀ j, KnowsChain env store'.db (Function.update w.locals i thread' j)
      rw [hdb]
      exact World.forall_update hknows fun j _ => h.knows j
    · show store'.db.decisions = _ ++ store'.accepted.map _
      rw [hdb, haccepted]
      exact h.decisions
    · have hchain : store'.chain caseId observationId = w.store.chain caseId observationId := by
        rw [CallStore.chain, haccepted, CallStore.chain]
      have hok := h.chain caseId observationId
      refine ⟨?_, ?_, ?_, ?_⟩
      · rw [hchain, hdb]
        exact hok.last
      · rw [hchain]
        exact hok.increasing
      · rw [hchain, hdb]
        exact hok.later
      · rw [hchain]
        exact hok.seen
  | accept d seen haccepts haccepted hthread =>
    -- The others hold no lock on the case of the decision: it is locked here, or new.
    have hother : ∀ j, j ≠ i → ∀ c, (w.locals j).caseLock = some c → c ≠ d.caseId := by
      rintro j hj c hc rfl
      rcases haccepts.locked with hlock | hnew
      · exact h.exclusive i j hj.symm _ hlock hc
      · exact hnew ((h.knows j).caseLock_drawn hc)
    refine ⟨haccepts.ids, ?_, hheld, hexclusive, ?_, fun caseId observationId => ?_⟩
    · refine World.forall_update (P := KnowsChain env store'.db) ?_ fun j hj => ?_
      · rw [hthread]
        trivial
      · exact (h.knows j).accept haccepts (hother j hj)
    · show store'.db.decisions = _ ++ store'.accepted.map _
      rw [haccepts.decisions, haccepted, List.map_append, h.decisions, List.append_assoc]
      rfl
    · exact (h.chain caseId observationId).accept haccepts haccepted

/-- **Decisions form a chain.** However the calls of `decide` and `reviewResult` interleave and whatever
their clocks show, the decisions accepted on a case and an observation have increasing times, each was
made by a caller who had seen exactly the accepted decision before it, `newestDecision` gives the last
one, and a statement that accepts nothing leaves the store as it is. -/
theorem decisions_chain {db₀ : Db} (hdb₀ : Run.Reachable (step env) {} db₀)
    {w : World CallStore DecisionThread}
    (h : Run.Reachable (World.step (decisionAct env)) (.start { db := db₀ } .idle) w)
    (caseId observationId : String) :
    w.store.db.decisions = db₀.decisions ++ w.store.accepted.map (·.decision) ∧
      ((w.store.chain caseId observationId).Pairwise fun a b =>
        a.decision.createdAt < b.decision.createdAt) ∧
      (∀ pre a post, w.store.chain caseId observationId = pre ++ a :: post →
        a.seen = (endOf (db₀.lastDecision caseId observationId) pre).map (·.id)) ∧
      w.store.db.lastDecision caseId observationId =
        endOf (db₀.lastDecision caseId observationId) (w.store.chain caseId observationId) ∧
      ∀ a w', World.step (decisionAct env) w a = some w' → w'.store.accepted = w.store.accepted →
        w'.store.db = w.store.db := by
  have hinv : CallInv env db₀ w :=
    h.invariant (callInv_start (inv_of_reachable hdb₀).caseIdsDrawn) fun _ _ _ hu _ hstep => hu.step hstep
  have hchain := hinv.chain caseId observationId
  refine ⟨hinv.decisions, hchain.increasing, hchain.seen, hchain.last, ?_⟩
  rintro ⟨i, action⟩ w' hstep hsame
  obtain ⟨store', thread', hact, rfl⟩ := World.step_eq_some.1 hstep
  rcases (decisionAct_spec hinv.ids (hinv.knows i) hact).1 with ⟨hdb, -, -⟩ | ⟨d, seen, -, haccepted, -⟩
  · exact hdb
  · have hlength := congrArg List.length (haccepted.symm.trans hsame)
    simp at hlength

namespace Sample

/-- A violation has been found. -/
def violated : Db :=
  (Run.run (step environment) {}
    [.queue [run "run1" 1000], persist "run1" 1000 [task ""] [textResult (task "") .fail]]).getD {}

/-- Two callers read the case, one confirms the violation and one disputes it; then both go on. The
second clock is behind. -/
def twoCalls : List (ℕ × DecisionAct) :=
  let first : DecisionAct := .advance ⟨2000, 2000, 2000⟩
  let second : DecisionAct := .advance ⟨500, 500, 500⟩
  [(0, .decide owner (uuid 1) ⟨.confirm, "подтверждено", none⟩), (0, first),
    (1, .decide owner (uuid 1) ⟨.dispute, "не согласен", none⟩), (1, second),
    (0, first), (0, first), (0, first), (1, second), (1, second), (1, second)]

def beforeCalls : World CallStore DecisionThread := .start { db := violated } .idle

def afterCalls : World CallStore DecisionThread :=
  (Run.run (World.step (decisionAct environment)) beforeCalls twoCalls).getD beforeCalls

theorem run_twoCalls : Run.run (World.step (decisionAct environment)) beforeCalls twoCalls =
    some afterCalls := by
  have h : (Run.run (World.step (decisionAct environment)) beforeCalls twoCalls).isSome = true := by
    decide +kernel
  obtain ⟨w, hw⟩ := Option.isSome_iff_exists.1 h
  rw [afterCalls, hw, Option.getD_some]

end Sample

/-- The confirmation is accepted, the dispute was made by a caller who had not seen it. -/
theorem decisions_chain_sample :
    (Sample.afterCalls.store.chain (Sample.uuid 1) (Sample.uuid 0)).map (·.decision.action) = [.confirm] ∧
      Sample.afterCalls.store.db.lastDecision (Sample.uuid 1) (Sample.uuid 0) =
        endOf (Sample.violated.lastDecision (Sample.uuid 1) (Sample.uuid 0))
          (Sample.afterCalls.store.chain (Sample.uuid 1) (Sample.uuid 0)) := by
  refine ⟨by decide +kernel, ?_⟩
  exact (decisions_chain (Run.reachable_of_run (run_eq_some _ _ _))
    (Run.reachable_of_run Sample.run_twoCalls) (Sample.uuid 1) (Sample.uuid 0)).2.2.2.1

end AmoAnalytics.CrmControl
