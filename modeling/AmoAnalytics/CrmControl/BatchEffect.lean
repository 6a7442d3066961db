import AmoAnalytics.CrmControl.BatchCursor
import AmoAnalytics.CrmControl.AnalysisEffect

/-!
# What a step does to the batches

A step of a process updates batches in place, inserts one, or saves a page (`BatchEffect`); the tables of the analysis
change as in a step of the analysis (`SubStep`). No assumption is made on the cursor from which a page is saved.
-/

namespace AmoAnalytics.CrmControl

open Transaction

variable {env : Env} {analyzer : Analyzer} {audit : SavedAudit} {db db' : BatchDb} {thread thread' : BatchThread}
  {a : BatchAct}

/-! ## Batches -/

/-- The columns that are written once. -/
structure SameScope (b b' : AnalysisBatch) : Prop where
  id : b'.id = b.id
  runId : b'.runId = b.runId
  requestKey : b'.requestKey = b.requestKey
  scopeRole : b'.scopeRole = b.scopeRole
  managerId : b'.managerId = b.managerId
  groupId : b'.groupId = b.groupId

theorem SameScope.refl (b : AnalysisBatch) : SameScope b b := ⟨rfl, rfl, rfl, rfl, rfl, rfl⟩

theorem SameScope.trans {b b' b'' : AnalysisBatch} (h : SameScope b b') (h' : SameScope b' b'') : SameScope b b'' :=
  ⟨h'.id.trans h.id, h'.runId.trans h.runId, h'.requestKey.trans h.requestKey, h'.scopeRole.trans h.scopeRole,
    h'.managerId.trans h.managerId, h'.groupId.trans h.groupId⟩

theorem SameScope.inScope {b b' : AnalysisBatch} (h : SameScope b b') : audit.inScope b' = audit.inScope b := by
  have hcovers : b'.covers = b.covers := by
    funext o
    simp only [AnalysisBatch.covers, h.runId, h.scopeRole, h.groupId, h.managerId]
  unfold SavedAudit.inScope
  rw [hcovers]

/-- A row that is not a saved page. -/
structure SameBatch (b b' : AnalysisBatch) : Prop where
  scope : SameScope b b'
  cursor : b'.cursor = b.cursor
  deferredResults : b'.deferredResults = b.deferredResults
  done : b'.status = .completed → b.status = .completed

inductive BatchEffect (env : Env) (db db' : BatchDb) (thread : BatchThread) : Prop
  | update (p : AnalysisBatch → Bool) (f : AnalysisBatch → AnalysisBatch)
      (hbatches : db'.batches = Table.updateWhere p f db.batches) (hdrawn : db.drawn ≤ db'.drawn)
      (hsame : ∀ b, SameBatch b (f b))
  | insert (b : AnalysisBatch) (hbatches : db'.batches = db.batches ++ [b]) (hdrawn : db'.drawn = db.drawn + 1)
      (hid : b.id = env.uuid db.drawn) (hcursor : b.cursor = none) (hstatus : b.status = .queued)
  | save (lease : BatchLease) (page : BatchPage) (now : ℤ) (hthread : thread = .results lease page)
      (htodo : page.todo = [])
      (hbatches : db'.batches =
        Table.updateWhere (lease.holds now) (·.advance lease.candidate page now) db.batches)
      (hdrawn : db'.drawn = db.drawn)

theorem BatchEffect.same (hbatches : db'.batches = db.batches) (hdrawn : db'.drawn = db.drawn) :
    BatchEffect env db db' thread :=
  .update (fun _ => false) id (by rw [hbatches, Table.updateWhere_of_none fun _ _ => rfl]) hdrawn.ge
    fun b => ⟨.refl b, rfl, rfl, id⟩

theorem whileHeld_effect {lease : BatchLease} {now : ℤ} {next : BatchThread}
    (h : whileHeld lease now db (·.renew now) next = (db', thread')) : BatchEffect env db db' thread := by
  unfold whileHeld at h
  split_ifs at h <;> obtain ⟨rfl, rfl⟩ := Prod.mk.inj h
  · exact .update (lease.holds now) (·.renew now) rfl le_rfl fun b => ⟨⟨rfl, rfl, rfl, rfl, rfl, rfl⟩, rfl, rfl, id⟩
  · exact .same rfl rfl

theorem upsert_effect (runId : String) (scope : AnalysisScope) (requestKey : String) (createdAt : ℤ) :
    BatchEffect env db (db.upsert env runId scope requestKey createdAt) thread := by
  unfold BatchDb.upsert
  split_ifs
  · exact .same rfl rfl
  · exact .insert _ rfl rfl rfl rfl rfl

theorem enqueueResult_effect {lease : BatchLease} {page : BatchPage} {o : Observation} {result : ResultRow}
    {outcome : EnqueueOutcome} (h : enqueueResult lease page o result db env outcome = (db', thread')) :
    BatchEffect env db db' thread := by
  cases outcome with
  | job inputHash request options createdAt =>
    unfold enqueueResult at h
    dsimp only at h
    split at h <;> obtain ⟨rfl, rfl⟩ := Prod.mk.inj h <;> exact .same rfl rfl
  | _ => obtain ⟨rfl, rfl⟩ := Prod.mk.inj h; exact .same rfl rfl

theorem batchAct_effect (hact : batchAct env analyzer audit db thread a = some (db', thread')) :
    BatchEffect env db db' thread := by
  unfold batchAct at hact
  split at hact
  case h_1 => split at hact <;> cases hact <;> exact .same rfl rfl
  case h_3 now _ =>
    cases hact
    exact .update (expiredBatch now) (·.expire) rfl le_rfl fun b => ⟨⟨rfl, rfl, rfl, rfl, rfl, rfl⟩, rfl, rfl, nofun⟩
  case h_5 => split at hact <;> cases hact <;> exact .same rfl rfl
  case h_6 => split at hact <;> cases hact <;> exact .same rfl rfl
  case h_7 => cases hact; exact upsert_effect _ _ _ _
  case h_8 => split at hact <;> cases hact <;> exact .same rfl rfl
  case h_9 now candidate _ =>
    split at hact
    · rename_i db₁ hclaim
      cases hact
      unfold BatchDb.claim at hclaim
      split_ifs at hclaim
      cases hclaim
      exact .update (claimableBatch candidate) (·.claim now (env.uuid db.drawn)) rfl (Nat.le_succ _)
        fun b => ⟨⟨rfl, rfl, rfl, rfl, rfl, rfl⟩, rfl, rfl, nofun⟩
    · cases hact
      exact .same rfl rfl
  case h_10 => split at hact <;> cases hact <;> exact .same rfl rfl
  case h_12 lease page now =>
    split at hact
    · rename_i htodo
      cases hact
      exact .save lease page now rfl htodo rfl rfl
    · exact whileHeld_effect (Option.some.inj hact)
  case h_13 =>
    split at hact
    · cases hact
    · split_ifs at hact
      · cases hact
        exact .same rfl rfl
      · exact enqueueResult_effect (Option.some.inj hact)
  case h_14 => exact whileHeld_effect (Option.some.inj hact)
  case h_17 lease now =>
    cases hact
    refine .update (lease.holds now) (·.fail lease.candidate now) rfl le_rfl
      fun b => ⟨⟨rfl, rfl, rfl, rfl, rfl, rfl⟩, rfl, rfl, ?_⟩
    unfold AnalysisBatch.fail
    dsimp only
    split_ifs <;> exact nofun
  case h_23 =>
    obtain ⟨p, hp, heq⟩ := Option.map_eq_some_iff.1 hact
    cases heq
    exact .same rfl rfl
  case h_24 =>
    obtain ⟨p, hp, heq⟩ := Option.map_eq_some_iff.1 hact
    cases heq
    exact .same rfl rfl
  all_goals cases hact <;> exact .same rfl rfl

/-! ## Jobs -/

/-- The process of the analysis in a process of the batches. -/
def BatchThread.sub : BatchThread → AnalysisThread
  | .retrying _ _ retry => retry
  | .analysis thread => thread
  | _ => .idle

/-- What a step does to the jobs, and where it leaves the process of the analysis. -/
inductive SubStep (env : Env) (analyzer : Analyzer) (db db' : BatchDb) (thread thread' : BatchThread) : Prop
  | same (hanalysis : db'.analysis = db.analysis)
      (hsub : thread'.sub = .idle ∨ thread'.sub = thread.sub ∨
        ∃ jobId requestKey, thread'.sub = .granting jobId requestKey)
  | act (t t' : AnalysisThread) (a : AnalysisAct)
      (hact : analysisAct env analyzer db.analysis t a = some (db'.analysis, t'))
      (hsub : t = .idle ∨ t = thread.sub) (hsub' : thread'.sub = .idle ∨ thread'.sub = t')

theorem whileHeld_subStep {lease : BatchLease} {now : ℤ} {next : BatchThread}
    (hnext : next.sub = .idle ∨ ∃ jobId requestKey, next.sub = .granting jobId requestKey)
    (h : whileHeld lease now db (·.renew now) next = (db', thread')) :
    SubStep env analyzer db db' thread thread' := by
  unfold whileHeld at h
  split_ifs at h <;> obtain ⟨rfl, rfl⟩ := Prod.mk.inj h
  · exact .same rfl (hnext.imp_right Or.inr)
  · exact .same rfl (Or.inl rfl)

theorem enqueueResult_subStep {lease : BatchLease} {page : BatchPage} {o : Observation} {result : ResultRow}
    {outcome : EnqueueOutcome} (h : enqueueResult lease page o result db env outcome = (db', thread')) :
    SubStep env analyzer db db' thread thread' := by
  cases outcome with
  | job inputHash request options createdAt =>
    unfold enqueueResult at h
    dsimp only at h
    split at h <;> obtain ⟨rfl, rfl⟩ := Prod.mk.inj h <;>
      exact .act .idle .idle (.enqueue ⟨result.id, o.snapshotHash, inputHash, request, options⟩ createdAt) rfl
        (Or.inl rfl) (Or.inl rfl)
  | _ => obtain ⟨rfl, rfl⟩ := Prod.mk.inj h; exact .same rfl (Or.inl rfl)

theorem batchAct_subStep (hact : batchAct env analyzer audit db thread a = some (db', thread')) :
    SubStep env analyzer db db' thread thread' := by
  have henqueued : ∀ next : Option ℤ, (BatchThread.enqueued next).sub = .idle := fun next => by cases next <;> rfl
  unfold batchAct at hact
  split at hact
  case h_1 => split at hact <;> cases hact <;> exact .same rfl (Or.inl rfl)
  case h_5 => split at hact <;> cases hact <;> exact .same rfl (Or.inl rfl)
  case h_6 =>
    split at hact <;> cases hact
    · exact .same rfl (Or.inl (henqueued _))
    · exact .same rfl (Or.inl rfl)
  case h_7 runId scope requestKey _ now =>
    cases hact
    refine .same ?_ (Or.inl (henqueued _))
    unfold BatchDb.upsert
    split_ifs <;> rfl
  case h_8 => split at hact <;> cases hact <;> exact .same rfl (Or.inl rfl)
  case h_9 now candidate _ =>
    split at hact
    · rename_i db₁ hclaim
      cases hact
      unfold BatchDb.claim at hclaim
      split_ifs at hclaim
      cases hclaim
      exact .same rfl (Or.inl rfl)
    · cases hact
      exact .same rfl (Or.inl rfl)
  case h_10 => split at hact <;> cases hact <;> exact .same rfl (Or.inl rfl)
  case h_12 lease page now =>
    split at hact
    · cases hact
      exact .same rfl (Or.inl rfl)
    · exact whileHeld_subStep (Or.inl rfl) (Option.some.inj hact)
  case h_13 =>
    split at hact
    · cases hact
    · split_ifs at hact
      · cases hact
        exact .same rfl (Or.inl rfl)
      · exact enqueueResult_subStep (Option.some.inj hact)
  case h_14 lease page jobId now =>
    refine whileHeld_subStep ?_ (Option.some.inj hact)
    split_ifs
    · exact Or.inr ⟨jobId, lease.candidate.requestKey, rfl⟩
    · exact Or.inl rfl
  case h_16 lease page retry _ _ =>
    cases hact
    cases retry with
    | idle => exact .same rfl (Or.inr (Or.inl rfl))
    | analysing => exact .same rfl (Or.inr (Or.inl rfl))
    | _ => exact .act _ _ .advance rfl (Or.inr rfl) (Or.inr rfl)
  case h_23 =>
    obtain ⟨⟨db₁, t'⟩, hp, heq⟩ := Option.map_eq_some_iff.1 hact
    cases heq
    exact .act .idle t' _ hp (Or.inl rfl) (Or.inr rfl)
  case h_24 t _ =>
    obtain ⟨⟨db₁, t'⟩, hp, heq⟩ := Option.map_eq_some_iff.1 hact
    cases heq
    exact .act t t' _ hp (Or.inr rfl) (Or.inr rfl)
  all_goals cases hact <;> exact .same rfl (Or.inl rfl)

/-! ## The batch at work -/

/-- The batch as the process read it. -/
def BatchThread.candidate : BatchThread → Option AnalysisBatch
  | .claiming _ candidate => some candidate
  | .claimed lease | .reading lease | .results lease _ | .owned lease _ | .errorJob lease _ _ | .retrying lease _ _
  | .failing lease => some lease.candidate
  | _ => none

/-- The rows of the page at work. -/
def BatchThread.rows : BatchThread → Option (List Observation)
  | .results _ page | .owned _ page | .errorJob _ page _ | .retrying _ page _ => some page.rows
  | _ => none

/-- The batch at work is the one before, or it was just read; its page is read after its cursor. -/
structure WorksOn (audit : SavedAudit) (db : BatchDb) (thread thread' : BatchThread) : Prop where
  candidate : ∀ c, thread'.candidate = some c → thread.candidate = some c ∨ c ∈ db.batches ∧ thread'.rows = none
  rows : ∀ rows, thread'.rows = some rows → thread.rows = some rows ∨
    ∀ c, thread'.candidate = some c → rows = audit.page c

theorem WorksOn.none (hcandidate : thread'.candidate = none) (hrows : thread'.rows = none) :
    WorksOn audit db thread thread' :=
  ⟨fun _ hc => absurd (hcandidate.symm.trans hc) nofun, fun _ hr => absurd (hrows.symm.trans hr) nofun⟩

theorem WorksOn.same (hcandidate : thread'.candidate = thread.candidate) (hrows : thread'.rows = thread.rows) :
    WorksOn audit db thread thread' :=
  ⟨fun _ hc => Or.inl (hcandidate ▸ hc), fun _ hr => Or.inl (hrows ▸ hr)⟩

theorem WorksOn.leave (hcandidate : thread'.candidate = thread.candidate) (hrows : thread'.rows = Option.none) :
    WorksOn audit db thread thread' :=
  ⟨fun _ hc => Or.inl (hcandidate ▸ hc), fun _ hr => absurd (hrows.symm.trans hr) nofun⟩

theorem whileHeld_worksOn {lease : BatchLease} {now : ℤ} {next : BatchThread}
    (hcandidate : next.candidate = thread.candidate) (hrows : next.rows = thread.rows)
    (h : whileHeld lease now db (·.renew now) next = (db', thread')) : WorksOn audit db thread thread' := by
  unfold whileHeld at h
  split_ifs at h <;> obtain ⟨rfl, rfl⟩ := Prod.mk.inj h
  · exact .same hcandidate hrows
  · exact .none rfl rfl

theorem batchAct_worksOn (hact : batchAct env analyzer audit db thread a = some (db', thread')) :
    WorksOn audit db thread thread' := by
  have henqueued : ∀ {thread : BatchThread} (next : Option ℤ), WorksOn audit db thread (.enqueued next) := by
    intro thread next
    cases next <;> exact .none rfl rfl
  unfold batchAct at hact
  split at hact
  case h_1 => split at hact <;> cases hact <;> exact .none rfl rfl
  case h_5 => split at hact <;> cases hact <;> exact .none rfl rfl
  case h_6 =>
    split at hact <;> cases hact
    · exact henqueued _
    · exact .none rfl rfl
  case h_7 => cases hact; exact henqueued _
  case h_8 now _ =>
    split at hact
    · rename_i candidate hcandidate
      cases hact
      refine ⟨fun c hc => Or.inr ⟨?_, rfl⟩, nofun⟩
      exact Option.some.inj hc ▸ BatchDb.candidate_mem hcandidate
    · cases hact
      exact .none rfl rfl
  case h_9 =>
    split at hact <;> cases hact
    · exact .leave rfl rfl
    · exact .none rfl rfl
  case h_10 => split at hact <;> cases hact <;> exact .leave rfl rfl
  case h_11 lease _ =>
    cases hact
    refine ⟨fun _ hc => Or.inl hc, fun rows hrows => Or.inr fun c hc => ?_⟩
    rw [← Option.some.inj hrows, ← Option.some.inj hc]
    rfl
  case h_12 lease page now =>
    split at hact
    · cases hact
      exact .none rfl rfl
    · refine whileHeld_worksOn ?_ ?_ (Option.some.inj hact) <;> rfl
  case h_13 lease page outcome =>
    split at hact
    · cases hact
    · split_ifs at hact
      · cases hact
        exact .same rfl rfl
      · cases outcome with
        | job =>
          unfold enqueueResult at hact
          dsimp only at hact
          split at hact <;> cases hact <;> exact .same rfl rfl
        | badRequest => cases hact; exact .same rfl rfl
        | disabled => cases hact; exact .leave rfl rfl
        | failed => cases hact; exact .leave rfl rfl
  case h_14 lease page jobId now =>
    refine whileHeld_worksOn ?_ ?_ (Option.some.inj hact) <;> rfl
  case h_15 => cases hact; exact .same rfl rfl
  case h_16 => cases hact; exact .same rfl rfl
  case h_18 => cases hact; exact .leave rfl rfl
  case h_19 => cases hact; exact .leave rfl rfl
  case h_20 => cases hact; exact .leave rfl rfl
  case h_21 => cases hact; exact .leave rfl rfl
  case h_22 => cases hact; exact .leave rfl rfl
  case h_23 =>
    obtain ⟨p, hp, heq⟩ := Option.map_eq_some_iff.1 hact
    cases heq
    exact .none rfl rfl
  case h_24 =>
    obtain ⟨p, hp, heq⟩ := Option.map_eq_some_iff.1 hact
    cases heq
    exact .none rfl rfl
  all_goals cases hact <;> exact .none rfl rfl

/-! ## What always holds -/

/-- The tables of any run. -/
structure BatchBase (env : Env) (audit : SavedAudit) (db : BatchDb) : Prop where
  ids : (db.batches.map (·.id)).Nodup
  drawn : ∀ b ∈ db.batches, Drawn env db.drawn b.id
  onRow : ∀ b ∈ db.batches, Paging.OnRow Observation.id b.cursor (audit.inScope b)
  done : ∀ b ∈ db.batches, b.status = .completed → ∀ o ∈ audit.inScope b, Passed b.cursor o
  jobs : AnalysisInv env db.analysis
  keyed : JobsKeyed db.analysis

/-- What a process knows in any run. -/
structure ThreadBase (env : Env) (audit : SavedAudit) (db : BatchDb) (thread : BatchThread) : Prop where
  stored : ∀ c, thread.candidate = some c → (∃ b ∈ db.batches, SameScope c b) ∧
    Paging.OnRow Observation.id c.cursor (audit.inScope c)
  rows : ∀ c rows, thread.candidate = some c → thread.rows = some rows → rows = audit.page c
  knows : Knows env db.analysis thread.sub
  retries : thread.sub.Retries

/-- What a step keeps for the other processes. -/
structure BatchKeeps (env : Env) (db db' : BatchDb) : Prop where
  batches : ∀ b ∈ db.batches, ∃ b' ∈ db'.batches, SameScope b b' ∧ b.deferredResults ⊆ b'.deferredResults
  jobs : Moves env db.analysis db'.analysis

theorem ThreadBase.mono (h : ThreadBase env audit db thread) (hkeeps : BatchKeeps env db db') :
    ThreadBase env audit db' thread where
  stored c hc := by
    obtain ⟨⟨b, hb, hsame⟩, honRow⟩ := h.stored c hc
    obtain ⟨b', hb', hsame', -⟩ := hkeeps.batches b hb
    exact ⟨⟨b', hb', hsame.trans hsame'⟩, honRow⟩
  rows := h.rows
  knows job hjob := (h.knows job hjob).moves hkeeps.jobs
  retries := h.retries

theorem BatchEffect.batches (h : BatchEffect env db db' thread) : ∀ b ∈ db.batches,
    ∃ b' ∈ db'.batches, SameScope b b' ∧ b.deferredResults ⊆ b'.deferredResults := by
  intro b hb
  cases h with
  | update p f hbatches _ hsame =>
    refine ⟨_, hbatches ▸ Table.mem_updateWhere_of_mem hb, ?_⟩
    split_ifs
    · exact ⟨(hsame b).scope, fun x hx => (hsame b).deferredResults ▸ hx⟩
    · exact ⟨.refl b, fun _ => id⟩
  | insert new hbatches => exact ⟨b, hbatches ▸ List.mem_append_left _ hb, .refl b, fun _ => id⟩
  | save lease page now _ _ hbatches =>
    refine ⟨_, hbatches ▸ Table.mem_updateWhere_of_mem hb, ?_⟩
    split_ifs
    · exact ⟨⟨rfl, rfl, rfl, rfl, rfl, rfl⟩, List.subset_append_right _ _⟩
    · exact ⟨.refl b, fun _ => id⟩

/-- The batch that is saved is the one at work. -/
theorem ThreadBase.sameScope (h : ThreadBase env audit db thread) (hids : (db.batches.map (·.id)).Nodup)
    {c b : AnalysisBatch} (hc : thread.candidate = some c) (hb : b ∈ db.batches) (hid : b.id = c.id) :
    SameScope c b := by
  obtain ⟨⟨b', hb', hsame⟩, -⟩ := h.stored c hc
  rwa [List.inj_on_of_nodup_map hids hb hb' (hid.trans hsame.id.symm)]

theorem holds_id {lease : BatchLease} {now : ℤ} {b : AnalysisBatch} (h : lease.holds now b = true) :
    b.id = lease.candidate.id := by
  simp only [BatchLease.holds, Bool.and_eq_true, decide_eq_true_eq] at h
  exact h.1.1.1.1

theorem BatchEffect.base (h : BatchBase env audit db) (hthread : ThreadBase env audit db thread)
    (heffect : BatchEffect env db db' thread) : (db'.batches.map (·.id)).Nodup ∧
      (∀ b ∈ db'.batches, Drawn env db'.drawn b.id) ∧
      (∀ b ∈ db'.batches, Paging.OnRow Observation.id b.cursor (audit.inScope b)) ∧
      ∀ b ∈ db'.batches, b.status = .completed → ∀ o ∈ audit.inScope b, Passed b.cursor o := by
  cases heffect with
  | update p f hbatches hdrawn hsame =>
    rw [hbatches]
    refine ⟨by rw [Table.map_updateWhere _ fun b _ => (hsame b).scope.id]; exact h.ids,
      fun b' hb' => ?_, fun b' hb' => ?_, fun b' hb' => ?_⟩
    all_goals
      obtain ⟨b, hb, rfl⟩ := Table.mem_updateWhere.1 hb'
      split_ifs
    · exact (hsame b).scope.id ▸ (h.drawn b hb).mono hdrawn
    · exact (h.drawn b hb).mono hdrawn
    · rw [(hsame b).cursor, (hsame b).scope.inScope]
      exact h.onRow b hb
    · exact h.onRow b hb
    · rw [(hsame b).cursor, (hsame b).scope.inScope]
      exact fun hdone => h.done b hb ((hsame b).done hdone)
    · exact h.done b hb
  | insert new hbatches hdrawn hid hcursor hstatus =>
    rw [hbatches]
    refine ⟨?_, List.forall_mem_append.2 ⟨fun b hb => ?_, fun b hb => ?_⟩,
      List.forall_mem_append.2 ⟨h.onRow, fun b hb => ?_⟩, List.forall_mem_append.2 ⟨h.done, fun b hb => ?_⟩⟩
    · rw [List.map_append, List.map_singleton]
      refine h.ids.append (List.nodup_singleton _) (List.disjoint_singleton.2 fun hmem => ?_)
      obtain ⟨b, hb, hsame⟩ := List.mem_map.1 hmem
      exact (h.drawn b hb).ne (hsame.trans hid)
    · exact (h.drawn b hb).mono (hdrawn ▸ Nat.le_succ _)
    · rw [List.mem_singleton.1 hb, hdrawn]
      exact ⟨db.drawn, Nat.lt_succ_self _, hid⟩
    · rw [List.mem_singleton.1 hb, hcursor]
      exact nofun
    · rw [List.mem_singleton.1 hb, hstatus]
      exact nofun
  | save lease page now hat htodo hbatches hdrawn =>
    subst hat
    rw [hbatches, hdrawn]
    have hsameIds : ∀ b : AnalysisBatch, (b.advance lease.candidate page now).id = b.id := fun _ => rfl
    refine ⟨by rw [Table.map_updateWhere _ fun b _ => hsameIds b]; exact h.ids, fun b' hb' => ?_, fun b' hb' => ?_,
      fun b' hb' => ?_⟩
    all_goals
      obtain ⟨-, honRow⟩ := hthread.stored lease.candidate rfl
      have hrows := hthread.rows lease.candidate page.rows rfl rfl
      obtain ⟨b, hb, rfl⟩ := Table.mem_updateWhere.1 hb'
      split_ifs with hholds
    · exact h.drawn b hb
    · exact h.drawn b hb
    · have hsame := hthread.sameScope h.ids rfl hb (holds_id hholds)
      show Paging.OnRow Observation.id (Paging.nextCursor _ lease.candidate.cursor page.rows) (audit.inScope b)
      rw [hrows, page_eq audit honRow, hsame.inScope]
      exact honRow.next (audit.inScope_nodup _)
    · exact h.onRow b hb
    · have hsame := hthread.sameScope h.ids rfl hb (holds_id hholds)
      intro hdone o ho
      have hshort : page.rows.length < batchPageSize := by
        by_contra hfull
        have hstatus : (b.advance lease.candidate page now).status = .queued := if_neg hfull
        exact absurd (hstatus.symm.trans hdone) (by decide)
      exact passed_of_short honRow hrows hshort (hsame.inScope ▸ (show o ∈ audit.inScope b from ho))
    · exact h.done b hb

theorem retries_idle : AnalysisThread.idle.Retries :=
  fun _ _ heq => AnalysisThread.noConfusion heq

theorem retries_granting (jobId requestKey : String) : (AnalysisThread.granting jobId requestKey).Retries :=
  fun _ _ heq => AnalysisThread.noConfusion heq

theorem SubStep.base (h : BatchBase env audit db) (hthread : ThreadBase env audit db thread)
    (hsub : SubStep env analyzer db db' thread thread') : AnalysisInv env db'.analysis ∧ JobsKeyed db'.analysis ∧
      Knows env db'.analysis thread'.sub ∧ thread'.sub.Retries ∧ Moves env db.analysis db'.analysis := by
  cases hsub with
  | same hanalysis hsub =>
    rw [hanalysis]
    refine ⟨h.jobs, h.keyed, ?_, ?_, .refl _⟩
    all_goals rcases hsub with hsub | hsub | ⟨jobId, requestKey, hsub⟩ <;> rw [hsub]
    · exact knows_of_held rfl
    · exact hthread.knows
    · exact knows_of_held rfl
    · exact retries_idle
    · exact hthread.retries
    · exact retries_granting jobId requestKey
  | act t t' a hact hsub hsub' =>
    have hknows : Knows env db.analysis t := hsub.elim (fun h => h ▸ knows_of_held rfl) fun h => h ▸ hthread.knows
    have hretries : t.Retries := hsub.elim (fun h => h ▸ retries_idle) fun h => h ▸ hthread.retries
    obtain ⟨hinv, hknows', hmoves⟩ := analysisAct_spec h.jobs hknows hact
    refine ⟨hinv, h.keyed.step hretries hact, ?_, ?_, hmoves⟩
    all_goals rcases hsub' with hsub' | hsub' <;> rw [hsub']
    · exact knows_of_held rfl
    · exact hknows'
    · exact retries_idle
    · exact analysisAct_retries hretries hact

/-- **Step lemma.** -/
theorem batchBase_step (h : BatchBase env audit db) (hthread : ThreadBase env audit db thread)
    (hact : batchAct env analyzer audit db thread a = some (db', thread')) :
    BatchBase env audit db' ∧ ThreadBase env audit db' thread' ∧ BatchKeeps env db db' := by
  obtain ⟨hids, hdrawn, honRow, hdone⟩ := (batchAct_effect hact).base h hthread
  obtain ⟨hjobs, hkeyed, hknows, hretries, hmoves⟩ := (batchAct_subStep hact).base h hthread
  have hkeeps : BatchKeeps env db db' := ⟨(batchAct_effect hact).batches, hmoves⟩
  have hworks := batchAct_worksOn hact
  refine ⟨⟨hids, hdrawn, honRow, hdone, hjobs, hkeyed⟩,
    ⟨fun c hc => ?_, fun c rows hc hrows => ?_, hknows, hretries⟩, hkeeps⟩
  · rcases hworks.candidate c hc with hold | ⟨hread, -⟩
    · exact (hthread.mono hkeeps).stored c hold
    · obtain ⟨b', hb', hsame, -⟩ := hkeeps.batches c hread
      exact ⟨⟨b', hb', hsame⟩, h.onRow c hread⟩
  · rcases hworks.candidate c hc with hold | ⟨-, hnone⟩
    · rcases hworks.rows rows hrows with hsame | hpage
      · exact hthread.rows c rows hold hsame
      · exact hpage c hc
    · exact nomatch hnone.symm.trans hrows

/-- **Run lemma.** -/
theorem batchBase_of_reachable {w : World BatchDb BatchThread}
    (h : Run.Reachable (World.step (batchAct env analyzer audit)) batchStart w) :
    BatchBase env audit w.store ∧ ∀ i, ThreadBase env audit w.store (w.locals i) := by
  have hstore : BatchBase env audit {} := by
    constructor
    case jobs => exact analysisInv_empty
    all_goals simp [JobsKeyed]
  have hidle : ThreadBase env audit {} .idle := by
    refine ⟨fun c hc => ?_, fun c _ hc => ?_, knows_of_held rfl, retries_idle⟩ <;> cases hc
  exact World.invariant (I := BatchBase env audit) (L := ThreadBase env audit) (R := BatchKeeps env) h
    ⟨hstore, fun _ => hidle⟩ (fun _ _ _ _ _ h hthread hact => batchBase_step h hthread hact)
    fun _ _ _ _ hthread hkeeps => hthread.mono hkeeps

end AmoAnalytics.CrmControl
