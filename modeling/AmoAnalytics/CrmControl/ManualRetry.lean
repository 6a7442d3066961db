import AmoAnalytics.CrmControl.BatchEffect

/-!
# A recheck that is asked for by hand

`recheckRemaining` of `crm-control.service.ts` asks for a batch under a key of its own. A batch of that key gives
every failed job it meets new attempts; the job is queued again before the batch has passed its observation. A
request that meets a pending batch of the same run and scope joins it instead.
-/

namespace AmoAnalytics.CrmControl

open Transaction

variable {env : Env} {analyzer : Analyzer} {audit : SavedAudit} {db db' : BatchDb} {thread thread' : BatchThread}
  {a : BatchAct}

/-- The key of a recheck. -/
def manualRequestKey (runId actorId requestKey : String) : String :=
  "manual:" ++ runId ++ ":" ++ actorId ++ ":" ++ requestKey

theorem manualRequestKey_automatic (runId actorId requestKey : String) :
    automatic (manualRequestKey runId actorId requestKey) = false := by
  simp [automatic, manualRequestKey, String.toList_append, List.isPrefixOf]

/-! ## The result at work -/

/-- The service answers the request of the result with the job, or it fails. -/
def EnqueueOutcome.Answers (j : AnalysisJob) : EnqueueOutcome → Prop
  | .job inputHash _ _ _ => inputHash = j.inputHash
  | .badRequest => False
  | .disabled | .failed => True

/-- A request of the result in the step is answered with the job: its identity is the current one. -/
def AnswersWith (o : Observation) (r : ResultRow) (j : AnalysisJob) (thread : BatchThread) (a : BatchAct) : Prop :=
  match thread, a with
  | .owned _ page, .enqueue outcome => page.todo.head? = some (o, r) → outcome.Answers j
  | _, _ => True

/-- The job was granted new attempts since the grants were `before`. -/
def Served (before : List RetryGrant) (j : AnalysisJob) (db : AnalysisDb) : Prop :=
  ∃ g ∈ db.grants, g.jobId = j.id ∧ g ∉ before

section Job

variable {before : List RetryGrant} {j : AnalysisJob} {analysis analysis' : AnalysisDb} {ends : Prop}

theorem Served.effect (h : Served before j analysis) (heffect : JobEffect ends analysis analysis') :
    Served before j analysis' := by
  obtain ⟨g, hg, hjob, hnew⟩ := h
  exact ⟨g, heffect.grants hg, hjob, hnew⟩

/-- A failed job stays as it is until it is granted new attempts. -/
theorem JobEffect.waits (heffect : JobEffect ends analysis analysis') (hbefore : before ⊆ analysis.grants)
    (hj : j ∈ analysis.jobs) (herror : j.status = .error) : j ∈ analysis'.jobs ∨ Served before j analysis' := by
  cases heffect with
  | same hjobs => exact Or.inl (hjobs ▸ hj)
  | update p f hjobs _ _ hactive =>
    have hp : p j = false := by
      by_contra hp
      rcases hactive j (eq_true_of_ne_false hp) with hstatus | hstatus <;> rw [herror] at hstatus <;> cases hstatus
    have hmem := Table.mem_updateWhere_of_mem (p := p) (f := f) hj
    rw [hp] at hmem
    exact Or.inl (hjobs ▸ hmem)
  | requeue job grant _ _ hjobs _ hgrants hfresh hgrant =>
    by_cases hsame : sameError job j = true
    · have hid : j.id = job.id := by
        simp only [sameError, decide_eq_true_eq] at hsame
        exact hsame.1
      exact Or.inr ⟨grant, hgrants ▸ List.mem_append_right _ List.mem_cons_self, hgrant.trans hid.symm,
        fun hold => hfresh (hbefore hold)⟩
    · have hmem := Table.mem_updateWhere_of_mem (p := sameError job)
        (f := (·.requeue (job.attemptCount + attemptsPerRequest))) hj
      rw [if_neg hsame] at hmem
      exact Or.inl (hjobs ▸ hmem)

/-- The step that grants new attempts queues the job again. -/
theorem JobEffect.requeued (heffect : JobEffect ends analysis analysis') (hids : (analysis.jobs.map (·.id)).Nodup)
    (hj : j ∈ analysis.jobs) (hold : ¬ Served before j analysis) (hnew : Served before j analysis') :
    j.requeue (j.attemptCount + attemptsPerRequest) ∈ analysis'.jobs := by
  cases heffect with
  | same _ _ hgrants =>
    obtain ⟨g, hg, hrest⟩ := hnew
    exact absurd ⟨g, hgrants ▸ hg, hrest⟩ hold
  | update _ _ _ _ hgrants =>
    obtain ⟨g, hg, hrest⟩ := hnew
    exact absurd ⟨g, hgrants ▸ hg, hrest⟩ hold
  | requeue job grant _ hsame hjobs _ hgrants _ hgrant =>
    have hjob : grant.jobId = j.id := by
      obtain ⟨g, hg, hid, hfresh⟩ := hnew
      rw [hgrants, List.mem_append, List.mem_singleton] at hg
      rcases hg with hg | rfl
      · exact absurd ⟨g, hg, hid, hfresh⟩ hold
      · exact hid
    obtain ⟨k, hk, hsame⟩ := hsame
    have hread := hsame
    simp only [sameError, decide_eq_true_eq] at hread
    obtain rfl : k = j := List.inj_on_of_nodup_map hids hk hj (hread.1.trans (hgrant.symm.trans hjob))
    have hmem := Table.mem_updateWhere_of_mem (p := sameError job)
      (f := (·.requeue (job.attemptCount + attemptsPerRequest))) hj
    rw [if_pos hsame] at hmem
    rw [hjobs, hread.2.2.2.1]
    exact hmem

/-- The job that a request of the same identity is answered with. -/
theorem JobsKeyed.jobOf (h : JobsKeyed analysis) (hj : j ∈ analysis.jobs)
    (hversion : j.analyzerVersion = analyzerVersion) {r : AnalysisRequest} (hresult : j.resultId = r.resultId) (hhash : r.inputHash = j.inputHash) :
    analysis.jobOf r = some j := by
  unfold AnalysisDb.jobOf
  cases hfind : analysis.jobs.find? fun j =>
      decide (j.resultId = r.resultId ∧ j.inputHash = r.inputHash ∧ j.analyzerVersion = analyzerVersion) with
  | none =>
    have hno := List.find?_eq_none.1 hfind j hj
    simp [hresult, hhash, hversion] at hno
  | some k =>
    have hk := List.mem_of_find?_eq_some hfind
    have hmatch := List.find?_some hfind
    simp only [decide_eq_true_eq] at hmatch
    have hkey : k.key = j.key := by
      simp only [AnalysisJob.key, hmatch, hresult, hhash, hversion]
    rw [List.inj_on_of_nodup_map h hk hj hkey]

theorem AnalysisInv.findJob (h : AnalysisInv env analysis) (hj : j ∈ analysis.jobs) :
    analysis.findJob j.id = some j := by
  unfold AnalysisDb.findJob
  cases hfind : analysis.jobs.find? fun k => decide (k.id = j.id) with
  | none =>
    have hno := List.find?_eq_none.1 hfind j hj
    simp at hno
  | some k =>
    have hid : k.id = j.id := by simpa using List.find?_some hfind
    rw [List.inj_on_of_nodup_map h.ids (List.mem_of_find?_eq_some hfind) hj hid]

end Job

/-! ## The batch of the request -/

section Recheck

variable (env audit)

/-- The recheck with the key `key`, as one of its observations, an open result of it and the failed job of that result
see it. `before` are the grants before the recheck. -/
structure Recheck where
  key : String
  o : Observation
  r : ResultRow
  j : AnalysisJob
  before : List RetryGrant
  manual : automatic key = false
  valid : validRequestKey key = true
  fresh : ∀ g ∈ before, g.requestKey ≠ key
  result : r ∈ audit.openResults o
  builds : (audit.buildRequest o r).isSome = true
  job : j.resultId = r.id
  version : j.analyzerVersion = analyzerVersion
  error : j.retryable = true

variable {env audit} (m : Recheck audit)

theorem Recheck.failed : m.j.status = .error := by
  have herror := m.error
  simp only [AnalysisJob.retryable, Bool.and_eq_true, decide_eq_true_eq] at herror
  exact herror.1

/-- The job has its new attempts. -/
abbrev Recheck.Done (db : BatchDb) : Prop := Served m.before m.j db.analysis

/-- The tables after the recheck was asked for. -/
structure Recheck.Inv (env : Env) (db : BatchDb) : Prop where
  base : BatchBase env audit db
  before : m.before ⊆ db.analysis.grants
  waits : m.j ∈ db.analysis.jobs ∨ m.Done db
  passed : ∀ b ∈ db.batches, b.requestKey = m.key → m.o ∈ audit.inScope b → Passed b.cursor m.o → m.Done db

/-- Where a process that works for the recheck stands with the result. -/
def Recheck.AtWork (db : BatchDb) : BatchThread → Prop
  | .results lease page | .owned lease page =>
    lease.candidate.requestKey = m.key → m.o ∈ page.rows → (m.o, m.r) ∈ page.todo ∨ m.Done db
  | .errorJob lease page jobId => lease.candidate.requestKey = m.key → m.o ∈ page.rows →
      (m.o, m.r) ∈ page.todo.tail ∨ m.Done db ∨ jobId = m.j.id
  | .retrying lease page retry => lease.candidate.requestKey = m.key → m.o ∈ page.rows →
      (m.o, m.r) ∈ page.todo.tail ∨ m.Done db ∨
        retry ∈ [.granting m.j.id m.key, .granted m.j.id m.key, .extending m.j m.key]
  | _ => True

structure Recheck.Local (env : Env) (db : BatchDb) (thread : BatchThread) : Prop where
  base : ThreadBase env audit db thread
  passed : ∀ c, thread.candidate = some c → c.requestKey = m.key → m.o ∈ audit.inScope c → Passed c.cursor m.o →
    m.Done db
  work : m.AtWork db thread

variable {m}

theorem Recheck.AtWork.mono (h : m.AtWork db thread) (hdone : m.Done db → m.Done db') : m.AtWork db' thread := by
  cases thread with
  | results | owned => exact fun hkey ho => (h hkey ho).imp_right hdone
  | errorJob => exact fun hkey ho => (h hkey ho).imp_right (Or.imp_left hdone)
  | retrying => exact fun hkey ho => (h hkey ho).imp_right (Or.imp_left hdone)
  | _ => trivial

/-! ## One step -/

/-- What a step does to the jobs. -/
theorem Recheck.Inv.jobs (h : m.Inv env db) (hretries : thread.sub.Retries)
    (hsub : SubStep env analyzer db db' thread thread') : m.before ⊆ db'.analysis.grants ∧
      (m.j ∈ db'.analysis.jobs ∨ m.Done db') ∧ (m.Done db → m.Done db') := by
  cases hsub with
  | same hanalysis =>
    unfold Recheck.Done
    rw [hanalysis]
    exact ⟨h.before, h.waits, id⟩
  | act t t' a hact hsub =>
    have ht : t.Retries := hsub.elim (fun h => h ▸ retries_idle) fun h => h ▸ hretries
    rcases analysisAct_enqueues ht hact with heffect | ⟨request, createdAt, -, heq⟩
    · refine ⟨fun g hg => heffect.grants (h.before hg), ?_, fun hdone => hdone.effect heffect⟩
      rcases h.waits with hj | hdone
      · exact heffect.waits h.before hj m.failed
      · exact Or.inr (hdone.effect heffect)
    · have hgrants : db'.analysis.grants = db.analysis.grants := by
        rw [heq]
        unfold AnalysisDb.enqueue
        split_ifs <;> rfl
      have hdone : m.Done db → m.Done db' := fun ⟨g, hg, hrest⟩ => ⟨g, hgrants ▸ hg, hrest⟩
      exact ⟨hgrants ▸ h.before, h.waits.imp (fun hj => heq ▸ mem_enqueue.2 (Or.inl hj)) hdone, hdone⟩

/-- What a batch of the recheck has passed was served. -/
theorem Recheck.Inv.batches (h : m.Inv env db) (hlocal : m.Local env db thread) (hdone : m.Done db → m.Done db')
    (heffect : BatchEffect env db db' thread) :
    ∀ b ∈ db'.batches, b.requestKey = m.key → m.o ∈ audit.inScope b → Passed b.cursor m.o → m.Done db' := by
  intro b' hb' hkey ho hpassed
  cases heffect with
  | update p f hbatches _ hsame =>
    rw [hbatches] at hb'
    obtain ⟨b, hb, rfl⟩ := Table.mem_updateWhere.1 hb'
    split_ifs at hkey ho hpassed
    · rw [(hsame b).scope.inScope] at ho
      rw [(hsame b).cursor] at hpassed
      exact hdone (h.passed b hb ((hsame b).scope.requestKey ▸ hkey) ho hpassed)
    · exact hdone (h.passed b hb hkey ho hpassed)
  | insert new hbatches _ _ hcursor =>
    rw [hbatches, List.mem_append, List.mem_singleton] at hb'
    rcases hb' with hb' | rfl
    · exact hdone (h.passed b' hb' hkey ho hpassed)
    · rw [hcursor] at hpassed
      exact nomatch (show true = false from hpassed)
  | save lease page now hat htodo hbatches =>
    subst hat
    rw [hbatches] at hb'
    obtain ⟨b, hb, rfl⟩ := Table.mem_updateWhere.1 hb'
    split_ifs at hkey ho hpassed with hholds
    · have hsame := hlocal.base.sameScope h.base.ids rfl hb (holds_id hholds)
      have hcandidate : lease.candidate.requestKey = m.key := hsame.requestKey.symm.trans hkey
      have hcovered : m.o ∈ audit.inScope lease.candidate := hsame.inScope ▸ (show m.o ∈ audit.inScope b from ho)
      obtain ⟨-, honRow⟩ := hlocal.base.stored lease.candidate rfl
      have hrows := hlocal.base.rows lease.candidate page.rows rfl rfl
      rcases passed_page honRow hrows hcovered hpassed with hbefore | hrow
      · exact hdone (hlocal.passed lease.candidate rfl hcandidate hcovered hbefore)
      · rcases hlocal.work hcandidate hrow with hmem | hserved
        · rw [htodo] at hmem
          cases hmem
        · exact hdone hserved
    · exact hdone (h.passed b hb hkey ho hpassed)

/-- The transaction that grants the attempts, or a grant of the same request before it. -/
theorem Recheck.extended {analysis : AnalysisDb} (hj : m.j ∈ analysis.jobs) :
    Served m.before m.j (commit analysis (extendBudget env m.j m.key analysis)) := by
  have hsame : sameError m.j m.j = true := by
    simp [sameError, m.failed]
  have hany : analysis.jobs.any (sameError m.j) = true := List.any_eq_true.2 ⟨m.j, hj, hsame⟩
  unfold extendBudget
  dsimp only
  rw [if_pos hany]
  unfold AnalysisDb.insertGrant
  split_ifs with htaken
  · obtain ⟨g, hg, hmatch⟩ := List.any_eq_true.1 htaken
    simp only [decide_eq_true_eq] at hmatch
    exact ⟨g, hg, hmatch.1, fun hold => m.fresh g hold hmatch.2⟩
  · exact ⟨_, List.mem_append_right _ List.mem_cons_self, rfl, fun hold => m.fresh _ hold rfl⟩

/-- The retry of the job, statement by statement. -/
theorem Recheck.Inv.retry (h : m.Inv env db) {retry retry' : AnalysisThread} {analysis : AnalysisDb}
    (hretry : retry ∈ [.granting m.j.id m.key, .granted m.j.id m.key, .extending m.j m.key])
    (hdone : m.Done db → Served m.before m.j analysis) (hact : retry.advance env db.analysis = (analysis, retry')) :
    Served m.before m.j analysis ∨
      retry' ∈ [.granting m.j.id m.key, .granted m.j.id m.key, .extending m.j m.key] := by
  rcases h.waits with hj | hserved
  · simp only [List.mem_cons, List.not_mem_nil, or_false] at hretry
    rcases hretry with rfl | rfl | rfl
    · simp only [AnalysisThread.advance] at hact
      split_ifs at hact with hfound <;> obtain ⟨rfl, rfl⟩ := Prod.mk.inj hact
      · obtain ⟨g, hg⟩ := Option.isSome_iff_exists.1 hfound
        have hmatch := List.find?_some hg
        simp only [decide_eq_true_eq] at hmatch
        exact Or.inl ⟨g, List.mem_of_find?_eq_some hg, hmatch.1, fun hold => m.fresh g hold hmatch.2⟩
      · exact Or.inr (by simp)
    · have hfind : db.analysis.findJob m.j.id = some m.j := h.base.jobs.findJob hj
      simp only [AnalysisThread.advance, hfind, m.error, if_true] at hact
      obtain ⟨-, rfl⟩ := Prod.mk.inj hact
      exact Or.inr (by simp)
    · obtain ⟨rfl, -⟩ := Prod.mk.inj hact
      exact Or.inl (m.extended hj)
  · exact Or.inl (hdone hserved)

theorem Recheck.Inv.enqueued (h : m.Inv env db) (request : AnalysisRequest) (createdAt : ℤ)
    (hresult : m.j.resultId = request.resultId) (hhash : request.inputHash = m.j.inputHash) :
    (db.analysis.enqueue env request createdAt).jobOf request = some m.j ∨ m.Done db :=
  h.waits.imp_left fun hj =>
    (h.base.keyed.enqueue request createdAt).jobOf (mem_enqueue.2 (Or.inl hj)) m.version hresult hhash

/-- The next result of the page is enqueued. -/
theorem Recheck.Inv.enqueueResult (h : m.Inv env db) {lease : BatchLease} {page : BatchPage} {o : Observation}
    {r : ResultRow} {todo : List (Observation × ResultRow)} {outcome : EnqueueOutcome}
    (hwork : m.AtWork db (.owned lease page)) (htodo : page.todo = (o, r) :: todo)
    (hanswers : (o, r) = (m.o, m.r) → outcome.Answers m.j) (hdone : m.Done db → m.Done db')
    (hact : CrmControl.enqueueResult lease page o r db env outcome = (db', thread')) : m.AtWork db' thread' := by
  have htail : lease.candidate.requestKey = m.key → m.o ∈ page.rows →
      (o, r) = (m.o, m.r) ∨ (m.o, m.r) ∈ page.todo.tail ∨ m.Done db' := by
    intro hkey ho
    rcases hwork hkey ho with hmem | hserved
    · rw [htodo, List.mem_cons] at hmem
      rcases hmem with heq | hmem
      · exact Or.inl heq.symm
      · exact Or.inr (Or.inl (by rwa [htodo]))
    · exact Or.inr (Or.inr (hdone hserved))
  cases outcome with
  | job inputHash request options createdAt =>
    unfold CrmControl.enqueueResult at hact
    dsimp only at hact
    split at hact <;> obtain ⟨rfl, rfl⟩ := Prod.mk.inj hact <;> intro hkey ho
    · rename_i job hjob
      rcases htail hkey ho with heq | hrest
      · obtain ⟨rfl, rfl⟩ := Prod.mk.inj heq
        rcases h.enqueued ⟨_, _, inputHash, request, options⟩ createdAt m.job (hanswers rfl) with hof | hserved
        · rw [hof, Option.filter_eq_some_iff] at hjob
          exact Or.inr (Or.inr (congrArg AnalysisJob.id (Option.some.inj hjob.1).symm))
        · exact Or.inr (Or.inl (hdone hserved))
      · exact hrest.imp_right Or.inl
    · rename_i hjob
      rcases htail hkey ho with heq | hrest
      · obtain ⟨rfl, rfl⟩ := Prod.mk.inj heq
        rcases h.enqueued ⟨_, _, inputHash, request, options⟩ createdAt m.job (hanswers rfl) with hof | hserved
        · rw [hof] at hjob
          simp [m.failed, hkey, m.manual] at hjob
        · exact Or.inr (hdone hserved)
      · exact hrest
  | badRequest =>
    obtain ⟨rfl, rfl⟩ := Prod.mk.inj hact
    exact fun hkey ho => (htail hkey ho).resolve_left hanswers
  | disabled => obtain ⟨rfl, rfl⟩ := Prod.mk.inj hact; trivial
  | failed => obtain ⟨rfl, rfl⟩ := Prod.mk.inj hact; trivial

theorem whileHeld_atWork {lease : BatchLease} {now : ℤ} {next : BatchThread} (hnext : m.AtWork db' next)
    (h : whileHeld lease now db (·.renew now) next = (db', thread')) : m.AtWork db' thread' := by
  unfold whileHeld at h
  split_ifs at h <;> obtain ⟨-, rfl⟩ := Prod.mk.inj h
  · exact hnext
  · trivial

theorem Recheck.Inv.work (h : m.Inv env db) (hwork : m.AtWork db thread) (hanswers : AnswersWith m.o m.r m.j thread a)
    (hdone : m.Done db → m.Done db') (hact : batchAct env analyzer audit db thread a = some (db', thread')) :
    m.AtWork db' thread' := by
  have henqueued : ∀ next : Option ℤ, m.AtWork db' (.enqueued next) := fun next => by cases next <;> trivial
  unfold batchAct at hact
  split at hact
  case h_1 => split at hact <;> cases hact <;> trivial
  case h_5 => split at hact <;> cases hact <;> trivial
  case h_6 =>
    split at hact <;> cases hact
    · exact henqueued _
    · trivial
  case h_7 => cases hact; exact henqueued _
  case h_8 => split at hact <;> cases hact <;> trivial
  case h_9 => split at hact <;> cases hact <;> trivial
  case h_10 => split at hact <;> cases hact <;> trivial
  case h_11 lease _ =>
    cases hact
    exact fun _ ho => Or.inl (List.mem_flatMap.2 ⟨m.o, ho, List.mem_map.2 ⟨m.r, m.result, rfl⟩⟩)
  case h_12 lease page now =>
    split at hact
    · cases hact
      trivial
    · refine whileHeld_atWork ?_ (Option.some.inj hact)
      exact fun hkey ho => (hwork hkey ho).imp_right hdone
  case h_13 lease page outcome =>
    split at hact
    · cases hact
    · rename_i o r todo htodo
      have hhead : (o, r) = (m.o, m.r) → outcome.Answers m.j := fun heq => hanswers (htodo ▸ congrArg some heq)
      split_ifs at hact with hnone
      · cases hact
        intro hkey ho
        rcases hwork hkey ho with hmem | hserved
        · rw [htodo, List.mem_cons] at hmem
          rcases hmem with heq | hmem
          · obtain ⟨rfl, rfl⟩ := Prod.mk.inj heq
            have hbuilds := m.builds
            rw [Option.isNone_iff_eq_none] at hnone
            rw [hnone] at hbuilds
            cases hbuilds
          · exact Or.inl (by rw [BatchPage.defer, htodo]; exact hmem)
        · exact Or.inr hserved
      · exact h.enqueueResult hwork htodo hhead hdone (Option.some.inj hact)
  case h_14 lease page jobId now =>
    refine whileHeld_atWork ?_ (Option.some.inj hact)
    intro hkey ho
    rcases hwork hkey ho with hmem | hserved | rfl
    · exact Or.inl hmem
    · exact Or.inr (Or.inl (hdone hserved))
    · rw [hkey, if_pos m.valid]
      exact Or.inr (Or.inr List.mem_cons_self)
  case h_15 lease page _ =>
    cases hact
    intro hkey ho
    rcases hwork hkey ho with hmem | hserved | hretry
    · exact Or.inl hmem
    · exact Or.inr hserved
    · simp at hretry
  case h_16 lease page retry _ _ =>
    cases hact
    intro hkey ho
    rcases hwork hkey ho with hmem | hserved | hretry
    · exact Or.inl hmem
    · exact Or.inr (Or.inl (hdone hserved))
    · exact Or.inr (h.retry hretry hdone rfl)
  case h_23 =>
    obtain ⟨p, hp, heq⟩ := Option.map_eq_some_iff.1 hact
    cases heq
    trivial
  case h_24 =>
    obtain ⟨p, hp, heq⟩ := Option.map_eq_some_iff.1 hact
    cases heq
    trivial
  all_goals cases hact <;> trivial

/-- **Step lemma.** -/
theorem Recheck.Inv.step (h : m.Inv env db) (hlocal : m.Local env db thread)
    (hanswers : AnswersWith m.o m.r m.j thread a)
    (hact : batchAct env analyzer audit db thread a = some (db', thread')) :
    m.Inv env db' ∧ m.Local env db' thread' ∧ (BatchKeeps env db db' ∧ (m.Done db → m.Done db')) := by
  obtain ⟨hbase, hthread, hkeeps⟩ := batchBase_step h.base hlocal.base hact
  obtain ⟨hbefore, hwaits, hdone⟩ := h.jobs hlocal.base.retries (batchAct_subStep hact)
  have hpassed := h.batches hlocal hdone (batchAct_effect hact)
  refine ⟨⟨hbase, hbefore, hwaits, hpassed⟩, ⟨hthread, fun c hc hkey ho hpass => ?_, ?_⟩, hkeeps, hdone⟩
  · rcases (batchAct_worksOn hact).candidate c hc with hold | ⟨hread, -⟩
    · exact hdone (hlocal.passed c hold hkey ho hpass)
    · exact hdone (h.passed c hread hkey ho hpass)
  · exact h.work hlocal.work hanswers hdone hact

/-- The runs that answer every request of the result with the job. -/
abbrev RecheckRun (env : Env) (analyzer : Analyzer) (audit : SavedAudit) (o : Observation) (r : ResultRow)
    (j : AnalysisJob) (w w' : World BatchDb BatchThread) : Prop :=
  Run.ReachableVia (World.step (batchAct env analyzer audit)) (fun w a => AnswersWith o r j (w.locals a.1) a.2) w w'

/-- **Run lemma.** -/
theorem Recheck.run {w w' : World BatchDb BatchThread}
    (h₀ : m.Inv env w.store ∧ ∀ i, m.Local env w.store (w.locals i)) (h : RecheckRun env analyzer audit m.o m.r m.j w w') :
    m.Inv env w'.store ∧ ∀ i, m.Local env w'.store (w'.locals i) :=
  World.guarded_invariant (g := fun _ thread a => AnswersWith m.o m.r m.j thread a) (I := m.Inv env)
    (L := m.Local env) (R := fun db db' => BatchKeeps env db db' ∧ (m.Done db → m.Done db')) h h₀
    (fun _ _ _ _ _ h hlocal hanswers hact => h.step hlocal hanswers hact)
    fun _ _ _ _ hlocal hkeeps =>
      ⟨hlocal.base.mono hkeeps.1, fun c hc hkey ho hpass => hkeeps.2 (hlocal.passed c hc hkey ho hpass),
        hlocal.work.mono hkeeps.2⟩

theorem Recheck.start {w : World BatchDb BatchThread}
    (h : Run.Reachable (World.step (batchAct env analyzer audit)) batchStart w)
    (hbatch : ∀ b ∈ w.store.batches, b.requestKey ≠ m.key) (hbefore : m.before = w.store.analysis.grants)
    (hj : m.j ∈ w.store.analysis.jobs) : m.Inv env w.store ∧ ∀ i, m.Local env w.store (w.locals i) := by
  obtain ⟨hbase, hthread⟩ := batchBase_of_reachable h
  have hnone : ∀ i c, (w.locals i).candidate = some c → c.requestKey ≠ m.key := by
    intro i c hc hkey
    obtain ⟨⟨b, hb, hsame⟩, -⟩ := (hthread i).stored c hc
    exact hbatch b hb (hsame.requestKey.trans hkey)
  refine ⟨⟨hbase, hbefore ▸ List.Subset.refl _, Or.inl hj, fun b hb hkey => absurd hkey (hbatch b hb)⟩,
    fun i => ⟨hthread i, fun c hc hkey => absurd hkey (hnone i c hc), ?_⟩⟩
  have hi := hnone i
  cases hlocal : w.locals i with
  | results lease | owned lease | errorJob lease | retrying lease =>
    rw [hlocal] at hi
    exact fun hkey => absurd hkey (hi lease.candidate rfl)
  | _ => trivial

/-- The batch that is completed has queued the job again on its way. -/
theorem Recheck.requeued {w w' : World BatchDb BatchThread}
    (h₀ : m.Inv env w.store ∧ ∀ i, m.Local env w.store (w.locals i)) (hbefore : m.before = w.store.analysis.grants) (h : RecheckRun env analyzer audit m.o m.r m.j w w')
    {b : AnalysisBatch} (hb : b ∈ w'.store.batches) (hkey : b.requestKey = m.key) (hdone : b.status = .completed)
    (ho : m.o ∈ audit.inScope b) : ∃ u, RecheckRun env analyzer audit m.o m.r m.j w u ∧
      RecheckRun env analyzer audit m.o m.r m.j u w' ∧
      m.j.requeue (m.j.attemptCount + attemptsPerRequest) ∈ u.store.analysis.jobs := by
  have hinv := (Recheck.run h₀ h).1
  have hserved : m.Done w'.store := hinv.passed b hb hkey ho (hinv.base.done b hb hdone m.o ho)
  have hnone : ¬ m.Done w.store := fun ⟨g, hg, _, hnew⟩ => hnew (hbefore ▸ hg)
  obtain ⟨u, ⟨i, a⟩, v, hu, hguard, hstep, hv, hold, hnew⟩ :=
    h.exists_step (P := fun w => m.Done w.store) hnone hserved
  obtain ⟨hinvu, hlocalu⟩ := Recheck.run h₀ hu
  have hj : m.j ∈ u.store.analysis.jobs := hinvu.waits.resolve_right hold
  refine ⟨v, hu.trans (.single hguard hstep), hv, ?_⟩
  · obtain ⟨db', thread', hact, rfl⟩ := World.step_eq_some.1 hstep
    cases batchAct_subStep hact with
    | same hanalysis => exact absurd (show Served m.before m.j u.store.analysis from hanalysis ▸ hnew) hold
    | act t t' act hanalysis hsub =>
      have ht : t.Retries := hsub.elim (fun h => h ▸ retries_idle) fun h => h ▸ (hlocalu i).base.retries
      rcases analysisAct_enqueues ht hanalysis with heffect | ⟨request, createdAt, -, heq⟩
      · exact heffect.requeued hinvu.base.jobs.ids hj hold hnew
      · have hgrants : db'.analysis.grants = u.store.analysis.grants := by
          rw [heq]
          unfold AnalysisDb.enqueue
          split_ifs <;> rfl
        exact absurd (show Served m.before m.j u.store.analysis from
          Exists.imp (fun g hg => ⟨hgrants ▸ hg.1, hg.2⟩) hnew) hold

end Recheck

/-! ## Retired jobs -/

theorem JobEffect.settled {analysis analysis' : AnalysisDb} {ends : Prop} {j : AnalysisJob}
    (heffect : JobEffect ends analysis analysis') (hids : (analysis.jobs.map (·.id)).Nodup) (hj : j ∈ analysis.jobs)
    (hsettled : j.settled = true) : j ∈ analysis'.jobs := by
  obtain ⟨hfrom, hto⟩ := heffect.jobs
  obtain ⟨j', hj', hsame⟩ := hto j hj
  obtain ⟨k, hk, hsame', hkept⟩ := hfrom j' hj'
  obtain rfl : k = j := List.inj_on_of_nodup_map hids hk hj (hsame'.id.symm.trans hsame.id)
  rwa [← hkept hsettled]

/-- A settled job stays as it is in every run. -/
theorem settled_stays {w w' : World BatchDb BatchThread}
    (h : Run.Reachable (World.step (batchAct env analyzer audit)) batchStart w)
    (h' : Run.Reachable (World.step (batchAct env analyzer audit)) w w') {j : AnalysisJob}
    (hj : j ∈ w.store.analysis.jobs) (hsettled : j.settled = true) : j ∈ w'.store.analysis.jobs := by
  obtain ⟨hbase, hthread⟩ := batchBase_of_reachable h
  refine (World.invariant (I := fun db => BatchBase env audit db ∧ j ∈ db.analysis.jobs) (L := ThreadBase env audit)
    (R := BatchKeeps env) h' ⟨⟨hbase, hj⟩, hthread⟩ ?_ fun _ _ _ _ hthread hkeeps => hthread.mono hkeeps).1.2
  intro db thread a db' thread' ⟨hbase, hj⟩ hthread hact
  obtain ⟨hbase', hthread', hkeeps⟩ := batchBase_step hbase hthread hact
  refine ⟨⟨hbase', ?_⟩, hthread', hkeeps⟩
  cases batchAct_subStep hact with
  | same hanalysis => exact hanalysis ▸ hj
  | act t t' act hanalysis hsub =>
    have ht : t.Retries := hsub.elim (fun h => h ▸ retries_idle) fun h => h ▸ hthread.retries
    rcases analysisAct_enqueues ht hanalysis with heffect | ⟨request, createdAt, -, heq⟩
    · exact heffect.settled hbase.jobs.ids hj hsettled
    · exact heq ▸ mem_enqueue.2 (Or.inl hj)

/-! ## The recheck -/

section Sample

/-- A finished run of one observation with one open result, whose request is always built. -/
def Sample.recheckAudit : SavedAudit := { sampleAudit 1 with buildRequest := fun _ _ => some .null }

/-- The job of the result fails three times and keeps its error. -/
def Sample.timeouts : List (ℕ × BatchAct) :=
  let attempt (now : ℤ) : List (ℕ × BatchAct) :=
    [(0, .analysis (.processQueue now localModel)), (0, .analysis .advance), (0, .analysis .advance),
      (0, .analysis .advance), (0, .analysis .advance),
      (0, .analysis (.finish now (.error "LOCAL_AI_TIMEOUT" true) none)), (0, .crash)]
  (0, .analysis (.enqueue ⟨"result", "hash", "input", .null, localModel⟩ 0)) :: (0, .crash) ::
    (attempt 1_000 ++ attempt 100_000 ++ attempt 300_000)

/-- `processQueue` up to the first result of the batch. -/
def Sample.firstResult (process : ℕ) : List (ℕ × BatchAct) :=
  [(process, .processQueue 400_000), (process, .advance 400_000), (process, .latest none),
    (process, .advance 400_000), (process, .advance 400_000), (process, .advance 400_000),
    (process, .advance 400_000), (process, .advance 400_001),
    (process, .enqueue (.job "input" .null localModel 400_001))]

/-- A recheck by hand with its own batch. -/
def Sample.recheck : List (ℕ × BatchAct) :=
  [(0, .request "run" ⟨"OWNER", none, none⟩ (manualRequestKey "run" "owner" "key")), (0, .advance 350_000),
    (0, .advance 350_000)] ++ firstResult 0 ++
    [(0, .advance 400_002), (0, .advance 400_002), (0, .advance 400_002), (0, .advance 400_002),
      (0, .advance 400_002), (0, .advance 400_003)]

/-- The check of the sample run: each request is answered with the job. -/
def Sample.answers (_ : World BatchDb BatchThread) (a : ℕ × BatchAct) : Bool :=
  match a.2 with
  | .enqueue (.job inputHash _ _ _) => inputHash = "input"
  | .enqueue _ => false
  | _ => true

end Sample

end AmoAnalytics.CrmControl
