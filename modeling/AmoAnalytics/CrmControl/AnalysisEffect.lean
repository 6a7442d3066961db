import AmoAnalytics.CrmControl.AnalysisSafety

/-!
# What a step does to the jobs of the analysis

A step of a process inserts one job, gives one failed job a new budget, or updates jobs that are queued or running
(`JobEffect`). The columns that identify a job never change, and a failed job is left as it is until somebody asks for
it by hand.
-/

namespace AmoAnalytics.CrmControl

open Transaction

variable {env : Env} {analyzer : Analyzer} {db db' : AnalysisDb}

/-! ## Effects -/

/-- The columns that are written once. -/
structure SameJob (j j' : AnalysisJob) : Prop where
  id : j'.id = j.id
  resultId : j'.resultId = j.resultId
  snapshotHash : j'.snapshotHash = j.snapshotHash
  request : j'.request = j.request
  inputHash : j'.inputHash = j.inputHash
  analyzerVersion : j'.analyzerVersion = j.analyzerVersion
  promptVersion : j'.promptVersion = j.promptVersion
  model : j'.model = j.model
  modelSha256 : j'.modelSha256 = j.modelSha256
  createdAt : j'.createdAt = j.createdAt

theorem SameJob.refl (j : AnalysisJob) : SameJob j j := ⟨rfl, rfl, rfl, rfl, rfl, rfl, rfl, rfl, rfl, rfl⟩

/-- What a step does to the tables; only a step that `ends` an analysis may make a job ready. -/
inductive JobEffect (ends : Prop) (db db' : AnalysisDb) : Prop
  | same (hjobs : db'.jobs = db.jobs) (hattempts : db'.attempts = db.attempts) (hgrants : db'.grants = db.grants)
  | update (p : AnalysisJob → Bool) (f : AnalysisJob → AnalysisJob) (hjobs : db'.jobs = Table.updateWhere p f db.jobs)
      (hattempts : db.attempts <+: db'.attempts) (hgrants : db'.grants = db.grants)
      (hactive : ∀ j, p j = true → j.status = .queued ∨ j.status = .running) (hsame : ∀ j, SameJob j (f j))
      (hready : ends ∨ ∀ j, (f j).status ≠ .ready)
  | requeue (job : AnalysisJob) (grant : RetryGrant) (hretry : job.retryable = true)
      (hsame : ∃ j ∈ db.jobs, sameError job j = true)
      (hjobs : db'.jobs =
        Table.updateWhere (sameError job) (·.requeue (job.attemptCount + attemptsPerRequest)) db.jobs)
      (hattempts : db'.attempts = db.attempts) (hgrants : db'.grants = db.grants ++ [grant])
      (hfresh : grant ∉ db.grants) (hgrant : grant.jobId = job.id) (hlimit : grant.attemptLimit = job.attemptCount + attemptsPerRequest)

variable {ends : Prop}

/-- The transaction of an update of jobs that are queued or running, and the record of the attempt. -/
theorem JobEffect.attempt {p : AnalysisJob → Bool} {f : AnalysisJob → AnalysisJob} {row : Attempt}
    (hactive : ∀ j, p j = true → j.status = .queued ∨ j.status = .running) (hsame : ∀ j, SameJob j (f j))
    (hready : ends ∨ ∀ j, (f j).status ≠ .ready) (h : (db.updateJobs p f).insertAttempt row = .ok db') :
    JobEffect ends db db' := by
  obtain rfl := insertAttempt_ok h
  exact .update p f rfl (List.prefix_append _ _) rfl hactive hsame hready

theorem extendBudget_effect {job : AnalysisJob} {requestKey : String} (hretry : job.retryable = true)
    (h : extendBudget env job requestKey db = .ok db') : JobEffect ends db db' := by
  unfold extendBudget at h
  dsimp only at h
  split_ifs at h with hany
  · obtain ⟨rfl, hfresh⟩ := insertGrant_ok h
    obtain ⟨j, hj, hsame⟩ := List.any_eq_true.1 hany
    exact .requeue job _ hretry ⟨j, hj, hsame⟩ rfl rfl rfl (fun hold => hfresh _ hold rfl rfl) rfl rfl
  · obtain rfl := Except.ok.inj h
    exact .same rfl rfl rfl

theorem status_of_expired {now : ℤ} {expired j : AnalysisJob} (h : stillExpired now expired j = true) :
    j.status = .running := by
  simp only [stillExpired, Bool.and_eq_true, decide_eq_true_eq] at h
  exact h.1.1.2

/-- What a process knows of the job whose budget it extends. -/
def AnalysisThread.Retries (thread : AnalysisThread) : Prop :=
  ∀ job requestKey, thread = .extending job requestKey → job.retryable = true

theorem advance_retries {thread thread' : AnalysisThread} (h : thread.advance env db = (db', thread'))
    (hthread : thread.Retries) : thread'.Retries := by
  rintro job requestKey rfl
  cases thread with
  | granted jobId key =>
    simp only [AnalysisThread.advance] at h
    split at h
    · split_ifs at h with hretry
      · obtain ⟨-, heq⟩ := Prod.mk.inj h
        obtain ⟨rfl, -⟩ := AnalysisThread.extending.inj heq
        exact hretry
      · cases (Prod.mk.inj h).2
    · cases (Prod.mk.inj h).2
  | extending => cases (Prod.mk.inj h).2
  | idle | analysing => exact hthread job requestKey (Prod.mk.inj h).2
  | _ =>
    simp only [AnalysisThread.advance] at h
    repeat' (first | cases (Prod.mk.inj h).2 | split at h)

theorem advance_effect {thread thread' : AnalysisThread} (hthread : thread.Retries)
    (h : thread.advance env db = (db', thread')) : JobEffect False db db' := by
  have hsame : ∀ {next : AnalysisThread}, (db, next) = (db', thread') → JobEffect False db db' := by
    rintro next heq
    obtain ⟨rfl, rfl⟩ := Prod.mk.inj heq
    exact .same rfl rfl rfl
  cases thread with
  | recovering now options expired =>
    simp only [AnalysisThread.advance] at h
    split at h
    · rename_i db₁ hrecover
      obtain ⟨rfl, rfl⟩ := Prod.mk.inj h
      unfold CrmControl.recoverExpired at hrecover
      split at hrecover
      · refine .attempt (f := (·.expire now _)) (fun _ hj => Or.inr (status_of_expired hj))
          (fun j => ⟨rfl, rfl, rfl, rfl, rfl, rfl, rfl, rfl, rfl, rfl⟩) (Or.inr fun j => ?_) hrecover
        simp only [AnalysisJob.expire]
        split_ifs <;> (intro heq; cases heq)
      · exact Except.ok.inj hrecover ▸ .same rfl rfl rfl
    · exact hsame h
  | retiring now options ids =>
    obtain ⟨rfl, rfl⟩ := Prod.mk.inj h
    refine .update _ (·.retire now) rfl List.prefix_rfl rfl (fun j hj => ?_)
      (fun j => ⟨rfl, rfl, rfl, rfl, rfl, rfl, rfl, rfl, rfl, rfl⟩) (Or.inr fun _ heq => by cases heq)
    simp only [outdated, Bool.and_eq_true, decide_eq_true_eq] at hj
    exact Or.inl hj.2.1
  | claiming now options candidate =>
    have hclaim : ∀ {claimed : Option AnalysisJob} {db₁ : AnalysisDb},
        claim env now candidate db = .ok (db₁, claimed) → JobEffect False db db₁ := by
      intro claimed db₁ hclaim
      unfold CrmControl.claim at hclaim
      split at hclaim
      · dsimp only at hclaim
        split at hclaim
        · cases hclaim
        · obtain ⟨rfl, -⟩ := Prod.mk.inj (Except.ok.inj hclaim)
          refine .update _ (·.claim now (env.uuid db.drawn)) rfl List.prefix_rfl rfl (fun j hj => ?_)
            (fun j => ⟨rfl, rfl, rfl, rfl, rfl, rfl, rfl, rfl, rfl, rfl⟩) (Or.inr fun _ heq => by cases heq)
          simp only [stillClaimable, Bool.and_eq_true, decide_eq_true_eq] at hj
          exact Or.inl hj.1.1.1.2
      · exact (Prod.mk.inj (Except.ok.inj hclaim)).1 ▸ .same rfl rfl rfl
    simp only [AnalysisThread.advance] at h
    split at h
    · rename_i hok
      exact (Prod.mk.inj h).1 ▸ hclaim hok
    · rename_i hok
      exact (Prod.mk.inj h).1 ▸ hclaim hok
    · exact hsame h
  | extending job requestKey =>
    obtain ⟨rfl, rfl⟩ := Prod.mk.inj h
    exact commit_induction (.same rfl rfl rfl) fun db' hdb =>
      extendBudget_effect (hthread job requestKey rfl) hdb
  | _ =>
    simp only [AnalysisThread.advance] at h
    repeat' (first | exact hsame h | split at h)

theorem finish_effect {now : ℤ} {job : AnalysisJob} {outcome : Outcome} {v : Verdict} :
    JobEffect True db (commit db (finish env now job outcome v db)) := by
  refine commit_induction (.same rfl rfl rfl) fun db' hdb => ?_
  unfold CrmControl.finish at hdb
  split at hdb
  · refine .attempt (f := (·.finish now (retryDelay job) v)) (fun j hj => ?_)
      (fun j => ⟨rfl, rfl, rfl, rfl, rfl, rfl, rfl, rfl, rfl, rfl⟩) (Or.inl trivial) hdb
    simp only [holdsJob, Bool.and_eq_true, decide_eq_true_eq] at hj
    exact Or.inr hj.1.1.1.1.2
  · exact Except.ok.inj hdb ▸ .same rfl rfl rfl

/-- The step of a process that has an answer. -/
def Finishes (env : Env) (analyzer : Analyzer) (db db' : AnalysisDb) (thread : AnalysisThread) (a : AnalysisAct) :
    Prop :=
  ∃ options job now outcome rule, thread = .analysing options job ∧ a = .finish now outcome rule ∧
    db' = commit db (finish env now job (analysed options job outcome)
      (verdict analyzer job (analysed options job outcome) rule) db)

/-- Every step of a process. -/
theorem analysisAct_effect {thread thread' : AnalysisThread} {a : AnalysisAct} (hthread : thread.Retries)
    (h : analysisAct env analyzer db thread a = some (db', thread')) :
    JobEffect False db db' ∨ (∃ r createdAt, a = .enqueue r createdAt ∧ db' = db.enqueue env r createdAt) ∨
      Finishes env analyzer db db' thread a := by
  unfold CrmControl.analysisAct at h
  split at h
  case h_1 r createdAt => cases h; exact Or.inr (Or.inl ⟨r, createdAt, rfl, rfl⟩)
  case h_2 => cases h; exact Or.inl (.same rfl rfl rfl)
  case h_3 => split at h <;> cases h <;> exact Or.inl (.same rfl rfl rfl)
  case h_4 options job now outcome rule =>
    cases h
    exact Or.inr (Or.inr ⟨options, job, now, outcome, rule, rfl, rfl, rfl⟩)
  case h_5 => cases h
  case h_6 => cases h
  case h_7 => exact Or.inl (advance_effect hthread (Option.some.inj h))
  case h_8 => cases h; exact Or.inl (.same rfl rfl rfl)
  case h_9 => cases h

theorem JobEffect.mono (h : JobEffect ends db db') : JobEffect True db db' := by
  cases h with
  | same hjobs hattempts hgrants => exact .same hjobs hattempts hgrants
  | update p f hjobs hattempts hgrants hactive hsame =>
    exact .update p f hjobs hattempts hgrants hactive hsame (Or.inl trivial)
  | requeue job grant hretry hsame hjobs hattempts hgrants hfresh hgrant hlimit =>
    exact .requeue job grant hretry hsame hjobs hattempts hgrants hfresh hgrant hlimit

/-- The effect of every step but an insert. -/
theorem analysisAct_enqueues {thread thread' : AnalysisThread} {a : AnalysisAct} (hthread : thread.Retries)
    (h : analysisAct env analyzer db thread a = some (db', thread')) :
    JobEffect True db db' ∨ ∃ r createdAt, a = .enqueue r createdAt ∧ db' = db.enqueue env r createdAt := by
  rcases analysisAct_effect hthread h with heffect | henqueue | ⟨options, job, now, outcome, rule, -, -, rfl⟩
  · exact Or.inl heffect.mono
  · exact Or.inr henqueue
  · exact Or.inl finish_effect

theorem mem_enqueue {r : AnalysisRequest} {createdAt : ℤ} {j : AnalysisJob} :
    j ∈ (db.enqueue env r createdAt).jobs ↔ j ∈ db.jobs ∨ (j = newJob (env.uuid db.drawn) r createdAt ∧
      ∀ k ∈ db.jobs, k.resultId = r.resultId → k.inputHash = r.inputHash → k.analyzerVersion ≠ analyzerVersion) := by
  unfold AnalysisDb.enqueue
  split_ifs with hany
  · refine ⟨Or.inl, fun h => h.elim id fun h => ?_⟩
    obtain ⟨k, hk, heq⟩ := List.any_eq_true.1 hany
    simp only [decide_eq_true_eq] at heq
    exact absurd heq.2.2 (h.2 k hk heq.1 heq.2.1)
  · rw [List.mem_append, List.mem_singleton]
    refine or_congr_right (iff_self_and.2 fun _ k hk hresult hhash hversion => hany ?_)
    exact List.any_eq_true.2 ⟨k, hk, by simp [hresult, hhash, hversion]⟩

theorem analysisAct_retries {thread thread' : AnalysisThread} {a : AnalysisAct} (hthread : thread.Retries)
    (h : analysisAct env analyzer db thread a = some (db', thread')) : thread'.Retries := by
  unfold CrmControl.analysisAct at h
  split at h
  case h_3 => split at h <;> cases h <;> exact fun _ _ => nofun
  case h_7 => exact advance_retries (Option.some.inj h) hthread
  all_goals cases h <;> exact fun _ _ => nofun

/-- No process extends a budget but of a job that may be retried. -/
theorem retries_of_reachable {w : World AnalysisDb AnalysisThread}
    (h : Run.Reachable (World.step (analysisAct env analyzer)) analysisStart w) (i : ℕ) : (w.locals i).Retries :=
  (World.invariant (I := fun _ => True) (L := fun _ thread => thread.Retries) (R := fun _ _ => True) h
    ⟨trivial, fun _ _ _ => nofun⟩
    (fun _ _ _ _ _ _ hthread hact => ⟨trivial, analysisAct_retries hthread hact, trivial⟩)
    fun _ _ _ _ hthread _ => hthread).2 i

/-! ## Jobs stay what they are -/

/-- The job is over and no request brings it back. -/
def AnalysisJob.settled (j : AnalysisJob) : Bool :=
  j.status = .unknown || (j.status = .error && !j.retryable)

theorem sameError_retryable {job j : AnalysisJob} (hretry : job.retryable = true) (h : sameError job j = true) :
    j.retryable = true := by
  simp only [AnalysisJob.retryable, Bool.and_eq_true] at hretry
  simp only [sameError, decide_eq_true_eq] at h
  simp only [AnalysisJob.retryable, h.2.1, h.2.2.1]
  simpa using hretry.2

/-- Every job comes from a job with the same identity, and none is lost; a settled one is left as it is. -/
theorem JobEffect.jobs (h : JobEffect ends db db') :
    (∀ j' ∈ db'.jobs, ∃ j ∈ db.jobs, SameJob j j' ∧ (j.settled = true → j' = j)) ∧
      ∀ j ∈ db.jobs, ∃ j' ∈ db'.jobs, SameJob j j' := by
  have hupdate : ∀ (p : AnalysisJob → Bool) (f : AnalysisJob → AnalysisJob),
      db'.jobs = Table.updateWhere p f db.jobs → (∀ j, SameJob j (f j)) → (∀ j, p j = true → j.settled = false) →
      (∀ j' ∈ db'.jobs, ∃ j ∈ db.jobs, SameJob j j' ∧ (j.settled = true → j' = j)) ∧
        ∀ j ∈ db.jobs, ∃ j' ∈ db'.jobs, SameJob j j' := by
    intro p f hjobs hsame hsettled
    rw [hjobs]
    constructor
    · intro j' hj'
      obtain ⟨j, hj, rfl⟩ := Table.mem_updateWhere.1 hj'
      refine ⟨j, hj, ?_⟩
      split_ifs with hp
      · exact ⟨hsame j, fun hj => absurd hj (by simp [hsettled j hp])⟩
      · exact ⟨.refl j, fun _ => rfl⟩
    · intro j hj
      refine ⟨_, Table.mem_updateWhere_of_mem hj, ?_⟩
      split_ifs
      · exact hsame j
      · exact .refl j
  cases h with
  | same hjobs => exact hjobs ▸ ⟨fun j hj => ⟨j, hj, .refl j, fun _ => rfl⟩, fun j hj => ⟨j, hj, .refl j⟩⟩
  | update p f hjobs _ _ hactive hsame =>
    refine hupdate p f hjobs hsame fun j hp => ?_
    rcases hactive j hp with hstatus | hstatus <;> simp [AnalysisJob.settled, hstatus]
  | requeue job grant hretry _ hjobs =>
    refine hupdate _ _ hjobs (fun j => ⟨rfl, rfl, rfl, rfl, rfl, rfl, rfl, rfl, rfl, rfl⟩) fun j hp => ?_
    simp only [sameError, decide_eq_true_eq] at hp
    simp [AnalysisJob.settled, hp.2.1, sameError_retryable hretry (by simpa [sameError] using hp)]

/-- A job that is ready is ready before, unless the step ends its analysis. -/
theorem JobEffect.ready (h : JobEffect False db db') {j : AnalysisJob} (hj : j ∈ db'.jobs)
    (hready : j.status = .ready) : j ∈ db.jobs := by
  have hupdate : ∀ (p : AnalysisJob → Bool) (f : AnalysisJob → AnalysisJob),
      db'.jobs = Table.updateWhere p f db.jobs → (∀ j, (f j).status ≠ .ready) → j ∈ db.jobs := by
    intro p f hjobs hstatus
    rw [hjobs] at hj
    obtain ⟨k, hk, rfl⟩ := Table.mem_updateWhere.1 hj
    split_ifs at hready ⊢
    · exact absurd hready (hstatus k)
    · exact hk
  cases h with
  | same hjobs => exact hjobs ▸ hj
  | update p f hjobs _ _ _ _ hstatus => exact hupdate p f hjobs (hstatus.resolve_left id)
  | requeue job grant _ _ hjobs => exact hupdate _ _ hjobs fun _ => nofun

/-- Attempts are only added. -/
theorem JobEffect.attempts (h : JobEffect ends db db') : db.attempts <+: db'.attempts := by
  cases h with
  | same _ hattempts => exact hattempts ▸ List.prefix_rfl
  | update _ _ _ hattempts => exact hattempts
  | requeue _ _ _ _ _ hattempts => exact hattempts ▸ List.prefix_rfl

/-- Grants are only added. -/
theorem JobEffect.grants (h : JobEffect ends db db') {g : RetryGrant} (hg : g ∈ db.grants) : g ∈ db'.grants := by
  cases h with
  | same _ _ hgrants => exact hgrants ▸ hg
  | update _ _ _ _ hgrants => exact hgrants ▸ hg
  | requeue _ _ _ _ _ _ hgrants => exact hgrants ▸ List.mem_append_left _ hg

/-! ## The key of a job -/

/-- The unique index of the jobs. -/
def AnalysisJob.key (j : AnalysisJob) : String × String × String := (j.resultId, j.inputHash, j.analyzerVersion)

theorem SameJob.key_eq {j j' : AnalysisJob} (h : SameJob j j') : j'.key = j.key := by
  simp only [AnalysisJob.key, h.resultId, h.inputHash, h.analyzerVersion]

def JobsKeyed (db : AnalysisDb) : Prop := (db.jobs.map (·.key)).Nodup

theorem JobsKeyed.effect (h : JobsKeyed db) (heffect : JobEffect ends db db') : JobsKeyed db' := by
  unfold JobsKeyed at h ⊢
  cases heffect with
  | same hjobs => exact hjobs ▸ h
  | update p f hjobs _ _ _ hsame => rwa [hjobs, Table.map_updateWhere _ fun j _ => (hsame j).key_eq]
  | requeue job grant _ _ hjobs =>
    rw [hjobs, Table.map_updateWhere]
    · exact h
    · exact fun j _ => rfl

theorem JobsKeyed.enqueue (h : JobsKeyed db) (r : AnalysisRequest) (createdAt : ℤ) :
    JobsKeyed (db.enqueue env r createdAt) := by
  unfold JobsKeyed AnalysisDb.enqueue at *
  split_ifs with hany
  · exact h
  · rw [List.map_append, List.map_singleton]
    refine h.append (List.nodup_singleton _) (List.disjoint_singleton.2 fun hmem => hany ?_)
    obtain ⟨j, hj, hkey⟩ := List.mem_map.1 hmem
    obtain ⟨hresult, hrest⟩ := Prod.mk.inj hkey
    obtain ⟨hhash, hversion⟩ := Prod.mk.inj hrest
    exact List.any_eq_true.2 ⟨j, hj, decide_eq_true ⟨hresult, hhash, hversion⟩⟩

/-- Every step keeps the keys apart. -/
theorem JobsKeyed.step (h : JobsKeyed db) {thread thread' : AnalysisThread} {a : AnalysisAct}
    (hthread : thread.Retries) (hact : analysisAct env analyzer db thread a = some (db', thread')) :
    JobsKeyed db' := by
  rcases analysisAct_enqueues hthread hact with heffect | ⟨r, createdAt, -, rfl⟩
  · exact h.effect heffect
  · exact h.enqueue r createdAt

end AmoAnalytics.CrmControl
