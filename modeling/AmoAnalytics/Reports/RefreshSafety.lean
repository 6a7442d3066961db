import AmoAnalytics.Reports.SnapshotPrograms

/-!
# A refresh is not doubled, and when it is not stuck

A key never has two jobs that are queued or running. A snapshot that says `QUEUED` or `RUNNING` has such
a job, or an operation that will still write the snapshot or insert a job: only the last update of a job
can break this, when the snapshot was queued again after the runner had written it.
-/

namespace AmoAnalytics.Reports

variable {env : ReportEnv} {db db' : ReportDb} {thread thread' : ReportThread} {action : ReportAction}

/-! ## One active job for a key -/

/-- The key that an active job holds. -/
def SnapshotJob.activeKey (job : SnapshotJob) : Option String :=
  if job.status.active then some job.cacheKey else none

theorem SnapshotJob.activeKey_eq_some {job : SnapshotJob} {cacheKey : String} :
    job.activeKey = some cacheKey ↔ job.status.active = true ∧ job.cacheKey = cacheKey := by
  unfold SnapshotJob.activeKey
  split_ifs with hactive <;> simp [hactive]

theorem ReportDb.hasActiveJob_iff {cacheKey : String} : db.hasActiveJob cacheKey = true ↔
    ∃ job ∈ db.jobs, job.cacheKey = cacheKey ∧ job.status.active = true := by
  simp only [ReportDb.hasActiveJob, List.any_eq_true, Bool.and_eq_true, decide_eq_true_eq]

/-- What holds of the job table: an active key is held once, and every job has a configuration. -/
structure JobsInv (db : ReportDb) : Prop where
  unique : Table.UniqueOn SnapshotJob.activeKey db.jobs
  configured : ∀ job ∈ db.jobs, job.reportConfig.isSome = true

theorem JobsInv.of_jobs (h : JobsInv db) (hjobs : db'.jobs = db.jobs) : JobsInv db' :=
  ⟨hjobs ▸ h.unique, hjobs ▸ h.configured⟩

/-- An update that keeps or clears the active key and keeps the configuration. -/
theorem JobsInv.update (h : JobsInv db) {p : SnapshotJob → Bool} {f : SnapshotJob → SnapshotJob}
    (hjobs : db'.jobs = Table.updateWhere p f db.jobs)
    (hkey : ∀ job, p job = true → (f job).activeKey = job.activeKey ∨ (f job).activeKey = none)
    (hconfig : ∀ job, (f job).reportConfig = job.reportConfig) : JobsInv db' := by
  refine ⟨hjobs ▸ h.unique.updateWhere hkey, fun job hjob => ?_⟩
  obtain ⟨old, hold, rfl⟩ := Table.mem_updateWhere.1 (hjobs ▸ hjob)
  split_ifs
  · rw [hconfig]
    exact h.configured old hold
  · exact h.configured old hold

theorem JobsInv.enqueueJob (h : JobsInv db) (cacheKey config : String) (now : ℤ) :
    JobsInv (db.enqueueJob cacheKey config now) := by
  unfold ReportDb.enqueueJob
  split_ifs with hskip
  · exact h
  · simp only [Bool.or_eq_true, not_or] at hskip
    constructor
    · refine h.unique.append fun job hjob held hheld hnew => ?_
      obtain ⟨hactive, hkey⟩ := SnapshotJob.activeKey_eq_some.1 hheld
      obtain ⟨-, hkey'⟩ := SnapshotJob.activeKey_eq_some.1 hnew
      exact hskip.1 (ReportDb.hasActiveJob_iff.2 ⟨job, hjob, hkey.trans hkey'.symm, hactive⟩)
    · intro job hjob
      rcases List.mem_append.1 hjob with hold | hnew
      · exact h.configured job hold
      · obtain rfl := List.mem_singleton.1 hnew
        rfl

/-- Every job has a configuration, so none is invalid and the prune finds nothing to do. -/
theorem JobsInv.prune_eq (h : JobsInv db) (now : ℤ) : db.prune now = db := by
  have hvalid : ∀ job ∈ db.jobs, db.invalidJob job = false := by
    intro job hjob
    obtain ⟨config, hconfig⟩ := Option.isSome_iff_exists.1 (h.configured job hjob)
    rw [ReportDb.invalidJob, ReportDb.jobConfig, hconfig]
    cases db.findSnapshot job.cacheKey <;> simp
  have hinvalid : db.jobs.filter db.invalidJob = [] :=
    List.filter_eq_nil_iff.2 fun job hjob => by rw [hvalid job hjob]; exact Bool.false_ne_true
  have hjobs : (db.jobs.filter fun job => !db.invalidJob job) = db.jobs :=
    List.filter_eq_self.2 fun job hjob => by rw [hvalid job hjob]; rfl
  unfold ReportDb.prune
  simp only [hinvalid, hjobs, List.any_nil, Bool.false_and]
  rw [Table.updateWhere_of_none fun _ _ => rfl]

theorem JobsInv.lock (h : JobsInv db) {id : ℕ} {now : ℤ} (hlock : db.lockJob id now = some db') :
    JobsInv db' := by
  unfold ReportDb.lockJob at hlock
  split_ifs at hlock
  cases hlock
  refine h.update rfl (fun job hjob => Or.inl ?_) fun _ => rfl
  simp only [Bool.and_eq_true, decide_eq_true_eq] at hjob
  rw [SnapshotJob.activeKey, SnapshotJob.activeKey, hjob.2]
  rfl

theorem JobsInv.requeue (h : JobsInv db) (now : ℤ) : JobsInv (db.requeue now) := by
  refine h.update rfl (fun job hjob => Or.inl ?_) fun _ => rfl
  simp only [SnapshotJob.staleLock, Bool.and_eq_true, decide_eq_true_eq] at hjob
  rw [SnapshotJob.activeKey, SnapshotJob.activeKey, hjob.1]
  rfl

theorem JobsInv.close (h : JobsInv db) (id : ℕ) (error : Option String) (now : ℤ) :
    JobsInv (db.updateJob id (·.close error now)) := by
  refine h.update rfl (fun job _ => Or.inr ?_) fun _ => rfl
  unfold SnapshotJob.activeKey SnapshotJob.close
  cases error <;> rfl

/-! ## Covered snapshots -/

/-- A snapshot that says `QUEUED` or `RUNNING` has an active job, or meets `W`. -/
def Covered (db : ReportDb) (W : String → Prop) : Prop :=
  ∀ row ∈ db.snapshots, row.refreshStatus.refreshing = true →
    db.hasActiveJob row.cacheKey = true ∨ W row.cacheKey

variable {W W' : String → Prop}

theorem Covered.mono (h : Covered db W) (hW : ∀ k, W k → W' k) : Covered db W' :=
  fun row hrow hstatus => (h row hrow hstatus).imp_right (hW _)

/-- A change of the job table after which the active keys are still active. -/
theorem Covered.of_jobs (h : Covered db W) (hsnapshots : db'.snapshots = db.snapshots)
    (hactive : ∀ k, db.hasActiveJob k = true → db'.hasActiveJob k = true) : Covered db' W :=
  fun row hrow hstatus => (h row (hsnapshots ▸ hrow) hstatus).imp_left (hactive _)

/-- An update of one snapshot, by an operation that will write it again or that settles it. -/
theorem Covered.updateSnapshot (h : Covered db W) {k : String} {f : Snapshot → Snapshot}
    (hkey : ∀ row, (f row).cacheKey = row.cacheKey)
    (hwrites : W' k ∨ ∀ row, (f row).refreshStatus.refreshing = false)
    (hW : ∀ k', k' ≠ k → W k' → W' k') : Covered (db.updateSnapshot k f) W' := by
  intro row hrow hstatus
  obtain ⟨old, hold, rfl⟩ := Table.mem_updateWhere.1 hrow
  split_ifs at hstatus ⊢ with hk
  · rw [hkey, of_decide_eq_true hk]
    exact hwrites.elim Or.inr fun hsettled => absurd hstatus (Bool.eq_false_iff.1 (hsettled old))
  · exact (h old hold hstatus).imp_right (hW _ (by simpa using hk))

/-- A new snapshot, likewise. -/
theorem Covered.append (h : Covered db W) {row : Snapshot} (hfresh : db.findSnapshot row.cacheKey = none)
    (hwrites : W' row.cacheKey ∨ row.refreshStatus.refreshing = false)
    (hW : ∀ k', k' ≠ row.cacheKey → W k' → W' k') :
    Covered { db with snapshots := db.snapshots ++ [row] } W' := by
  intro other hother hstatus
  rcases List.mem_append.1 hother with hold | hnew
  · have hk : other.cacheKey ≠ row.cacheKey := by
      simpa using List.find?_eq_none.1 hfresh other hold
    exact (h other hold hstatus).imp_right (hW _ hk)
  · obtain rfl := List.mem_singleton.1 hnew
    exact hwrites.elim Or.inr fun hsettled => absurd hstatus (Bool.eq_false_iff.1 hsettled)

@[simp] theorem Snapshot.request_cacheKey (now : ℤ) (row : Snapshot) :
    (row.request now).cacheKey = row.cacheKey := by
  unfold Snapshot.request
  split_ifs <;> rfl

theorem Covered.insertMissing (h : Covered db W) {request : ReportRequest} {now : ℤ}
    (hwrites : W' request.cacheKey) (hW : ∀ k', W k' → W' k') :
    Covered (db.insertMissing request now) W' := by
  unfold ReportDb.insertMissing
  split_ifs with hfound
  · exact h.updateSnapshot (fun row => Snapshot.request_cacheKey now row) (Or.inl hwrites)
      fun k' _ => hW k'
  · exact h.append (Option.not_isSome_iff_eq_none.1 hfound) (Or.inl hwrites) fun k' _ => hW k'

theorem Covered.save (h : Covered db W) {k : String} {saved : SavedReport} {now : ℤ}
    (hW : ∀ k', k' ≠ k → W k' → W' k') : Covered (db.save k saved now) W' := by
  unfold ReportDb.save
  split_ifs with hfound
  · exact h.updateSnapshot (fun _ => rfl) (Or.inr fun _ => rfl) hW
  · exact h.append (Option.not_isSome_iff_eq_none.1 hfound) (Or.inr rfl) hW

/-- After the insert the key has an active job, unless it has no snapshot. -/
theorem Covered.enqueueJob (h : Covered db W) {k config : String} {now : ℤ}
    (hW : ∀ k', k' ≠ k → W k' → W' k') : Covered (db.enqueueJob k config now) W' := by
  intro row hrow hstatus
  unfold ReportDb.enqueueJob at hrow ⊢
  split_ifs at hrow ⊢ with hskip
  · by_cases hk : row.cacheKey = k
    · rcases Bool.or_eq_true_iff.1 hskip with hactive | hnone
      · exact Or.inl (hk ▸ hactive)
      · have hmissing := List.find?_eq_none.1 (Option.isNone_iff_eq_none.1 hnone) row hrow
        exact absurd hk (by simpa using hmissing)
    · exact (h row hrow hstatus).imp_right (hW _ hk)
  · by_cases hk : row.cacheKey = k
    · refine Or.inl (ReportDb.hasActiveJob_iff.2 ⟨_, List.mem_append_right _ (List.mem_singleton_self _), ?_, rfl⟩)
      exact hk.symm
    · refine (h row hrow hstatus).imp (fun hactive => ?_) (hW _ hk)
      obtain ⟨job, hjob, hheld⟩ := ReportDb.hasActiveJob_iff.1 hactive
      exact ReportDb.hasActiveJob_iff.2 ⟨job, List.mem_append_left _ hjob, hheld⟩

/-- An update that keeps the keys, and the active jobs of `k` active, keeps `k` active. -/
theorem hasActiveJob_update {p : SnapshotJob → Bool} {f : SnapshotJob → SnapshotJob}
    (hjobs : db'.jobs = Table.updateWhere p f db.jobs) (hkey : ∀ job, (f job).cacheKey = job.cacheKey)
    {k : String}
    (hactive : ∀ job ∈ db.jobs, job.cacheKey = k → p job = true → job.status.active = true →
      (f job).status.active = true)
    (h : db.hasActiveJob k = true) : db'.hasActiveJob k = true := by
  obtain ⟨job, hjob, hk, hstatus⟩ := ReportDb.hasActiveJob_iff.1 h
  refine ReportDb.hasActiveJob_iff.2 ⟨_, hjobs ▸ Table.mem_updateWhere_of_mem hjob, ?_⟩
  split_ifs with hp
  · exact ⟨(hkey job).trans hk, hactive job hjob hk hp hstatus⟩
  · exact ⟨hk, hstatus⟩

theorem Covered.lock (h : Covered db W) {id : ℕ} {now : ℤ} (hlock : db.lockJob id now = some db') :
    Covered db' W := by
  unfold ReportDb.lockJob at hlock
  split_ifs at hlock
  cases hlock
  refine h.of_jobs rfl fun k => hasActiveJob_update
    (f := fun job => { job with status := .running, startedAt := some now, error := none })
    rfl (fun _ => rfl) ?_
  exact fun _ _ _ _ _ => rfl

theorem Covered.requeue (h : Covered db W) (now : ℤ) : Covered (db.requeue now) W := by
  have hactive : ∀ k, db.hasActiveJob k = true → (db.requeue now).hasActiveJob k = true := by
    refine fun k => hasActiveJob_update
      (f := fun job => { job with status := .queued, startedAt := none, error := none })
      rfl (fun _ => rfl) ?_
    exact fun _ _ _ _ _ => rfl
  intro row hrow hstatus
  obtain ⟨old, hold, rfl⟩ := Table.mem_updateWhere.1 hrow
  split_ifs at hstatus ⊢ with hstale
  · -- The requeued job is the active one.
    obtain ⟨job, hjob, hk⟩ := List.any_eq_true.1 hstale
    obtain ⟨hjob, hlock⟩ := List.mem_filter.1 hjob
    have hrunning : job.status = .running := by
      simp only [SnapshotJob.staleLock, Bool.and_eq_true, decide_eq_true_eq] at hlock
      exact hlock.1
    refine Or.inl (hactive _ (ReportDb.hasActiveJob_iff.2 ⟨job, hjob, of_decide_eq_true hk, ?_⟩))
    rw [hrunning]
    rfl
  · exact (h old hold hstatus).imp_left (hactive _)

/-- A job may be closed: its row is closed already, or its snapshot says neither `QUEUED` nor `RUNNING`, or
the snapshot is covered otherwise. -/
def MayClose (db : ReportDb) (id : ℕ) (O : String → Prop) : Prop :=
  ∀ job ∈ db.jobs, job.id = id → job.status.active = true →
    (∀ row ∈ db.snapshots, row.cacheKey = job.cacheKey → row.refreshStatus.refreshing = false) ∨ O job.cacheKey

theorem Covered.close (h : Covered db W) {id : ℕ} {error : Option String} {now : ℤ}
    (hclose : MayClose db id W) : Covered (db.updateJob id (·.close error now)) W := by
  intro row hrow hstatus
  rcases h row hrow hstatus with hactive | hW
  · by_cases hclosed : ∃ job ∈ db.jobs, job.id = id ∧ job.status.active = true ∧ job.cacheKey = row.cacheKey
    · obtain ⟨job, hjob, hid, hjobActive, hk⟩ := hclosed
      rcases hclose job hjob hid hjobActive with hsettled | hO
      · exact absurd hstatus (Bool.eq_false_iff.1 (hsettled row hrow hk.symm))
      · exact Or.inr (hk ▸ hO)
    · refine Or.inl (hasActiveJob_update (f := (·.close error now)) rfl (fun _ => rfl)
        (fun job hjob hk hp hjobActive => ?_) hactive)
      exact absurd ⟨job, hjob, of_decide_eq_true hp, hjobActive, hk⟩ hclosed
  · exact Or.inr hW

/-! ## Steps and runs -/

theorem JobsInv.act (h : JobsInv db) (hchange : TableChange db db' thread action thread') : JobsInv db' := by
  cases hchange with
  | kept _ hjobs => exact h.of_jobs hjobs
  | marked hdb => exact h.of_jobs (hdb ▸ rfl)
  | missing hdb =>
    refine h.of_jobs ?_
    rw [hdb, ReportDb.insertMissing]
    split_ifs <;> rfl
  | saved hdb =>
    refine h.of_jobs ?_
    rw [hdb, ReportDb.save]
    split_ifs <;> rfl
  | enqueued hdb => exact hdb ▸ h.enqueueJob _ _ _
  | pruned hdb => rwa [hdb, h.prune_eq]
  | requeued hdb => exact hdb ▸ h.requeue _
  | locked hdb => exact h.lock hdb
  | closed hdb => exact hdb ▸ h.close _ _ _

/-- A statement keeps the snapshots covered by the operations; `O` stands for the other ones. -/
theorem Covered.act {O : String → Prop} (h : Covered db fun k => thread.writes k ∨ O k) (hinv : JobsInv db)
    (hclose : ∀ job jobs error, thread = .closing job jobs error → MayClose db job.id O)
    (hchange : TableChange db db' thread action thread') : Covered db' fun k => thread'.writes k ∨ O k := by
  cases hchange with
  | kept hsnapshots hjobs hwrites =>
    refine (h.mono fun k => Or.imp_left (hwrites k)).of_jobs hsnapshots fun k hactive => ?_
    rwa [ReportDb.hasActiveJob, hjobs]
  | marked hdb hsame hk hwrites =>
    exact hdb ▸ h.updateSnapshot hsame.cacheKey (hk.imp_left Or.inl) fun k hne => Or.imp_left (hwrites k hne)
  | missing hdb => exact hdb ▸ h.insertMissing (Or.inl rfl) fun k => Or.imp_left fun hk => nomatch hk
  | saved hdb _ _ hwrites => exact hdb ▸ h.save fun k hne => Or.imp_left (hwrites k hne)
  | enqueued hdb hwrites => exact hdb ▸ h.enqueueJob fun k hne => Or.imp_left (hwrites k hne)
  | pruned hdb =>
    rw [hdb, hinv.prune_eq]
    exact h.mono fun k => Or.imp_left fun hk => nomatch hk
  | requeued hdb => exact hdb ▸ (h.requeue _).mono fun k => Or.imp_left fun hk => nomatch hk
  | locked hdb => exact (h.lock hdb).mono fun k => Or.imp_left fun hk => nomatch hk
  | closed hdb =>
    have hO : Covered db O := h.mono fun k => Or.rec (fun hk => nomatch hk) fun hk => hk
    exact hdb ▸ (hO.close (hclose _ _ _ rfl)).mono fun k => Or.inr

/-- Every job is closed while its row is closed already, or its snapshot is settled, or another operation
will still write the snapshot or insert a job. -/
def ClosesSettled (w : World ReportDb ReportThread) (a : ℕ × ReportAction) : Prop :=
  ∀ job jobs error, w.locals a.1 = .closing job jobs error →
    MayClose w.store job.id fun k => ∃ i, i ≠ a.1 ∧ (w.locals i).writes k

/-- The invariant of the worlds reached. -/
def QueueInv (w : World ReportDb ReportThread) : Prop :=
  JobsInv w.store ∧ Covered w.store fun k => ∃ i, (w.locals i).writes k

theorem QueueInv.step {w w' : World ReportDb ReportThread} {a : ℕ × ReportAction} (h : QueueInv w)
    (hguard : ClosesSettled w a) (hstep : World.step (reportAct env) w a = some w') : QueueInv w' := by
  obtain ⟨i, action⟩ := a
  obtain ⟨db', thread', hact, rfl⟩ := World.step_eq_some.1 hstep
  have hchange := reportAct_tables hact
  refine ⟨h.1.act hchange, ?_⟩
  have hcovered : Covered w.store fun k => (w.locals i).writes k ∨ ∃ j, j ≠ i ∧ (w.locals j).writes k :=
    h.2.mono fun k hk => (World.exists_iff (P := fun l : ReportThread => l.writes k) i).1 hk
  exact (hcovered.act h.1 hguard hchange).mono fun k hk =>
    (World.exists_update (P := fun l : ReportThread => l.writes k)).2 hk

theorem queueInv_start : QueueInv reportStart :=
  ⟨⟨Table.uniqueOn_nil, fun _ hjob => absurd hjob List.not_mem_nil⟩,
    fun _ hrow => absurd hrow List.not_mem_nil⟩

/-- Where every job is closed with its snapshot settled, no refresh is lost: between the operations a
snapshot that says `QUEUED` or `RUNNING` has a job that is queued or running, and a key never has two. -/
theorem refresh_never_stuck {w : World ReportDb ReportThread}
    (h : Run.ReachableVia (World.step (reportAct env)) ClosesSettled reportStart w) :
    (Quiet w → ∀ row ∈ w.store.snapshots, row.refreshStatus.refreshing = true →
      ∃ job ∈ w.store.jobs, job.cacheKey = row.cacheKey ∧ job.status.active = true) ∧
    Table.UniqueOn SnapshotJob.activeKey w.store.jobs := by
  have hinv := h.invariant queueInv_start fun _ _ _ hinv hguard hstep => hinv.step hguard hstep
  refine ⟨fun hquiet row hrow hstatus => ?_, hinv.1.unique⟩
  rcases hinv.2 row hrow hstatus with hactive | ⟨i, hi⟩
  · exact ReportDb.hasActiveJob_iff.1 hactive
  · rw [hquiet i] at hi
    exact nomatch hi

namespace Sample

def reportEnv : ReportEnv := { periodOpen := fun _ _ => true }

/-- A request for the one report. -/
def request : ReportRequest := ⟨"key", "Отчёт", "{}"⟩

/-- The report is requested and its job runs up to the last update. -/
def refreshRun : List (ℕ × ReportAction) :=
  [(0, .insertMissing request 0), (0, .insertJob 0), (1, .prune 1), (1, .requeue 1), (1, .list 1),
    (1, .lock 1), (1, .markRunning 1), (1, .readSource),
    (1, .save "key" "42" "Отчёт" "{}" .certified none true 2)]

/-- The report is requested again before the job is closed. -/
def requestedAgain : List (ℕ × ReportAction) :=
  refreshRun ++ [(2, .beginRefresh request), (2, .mark 3), (2, .insertJob 3), (1, .close false 4), (1, .lock 4)]

end Sample

/-- A requested report waits for its job. -/
theorem refresh_never_stuck_sample :
    ∃ w, Run.ReachableVia (World.step (reportAct Sample.reportEnv)) ClosesSettled reportStart w ∧
      (Quiet w → ∀ row ∈ w.store.snapshots, row.refreshStatus.refreshing = true →
        ∃ job ∈ w.store.jobs, job.cacheKey = row.cacheKey ∧ job.status.active = true) ∧
      Table.UniqueOn SnapshotJob.activeKey w.store.jobs ∧ w.store.snapshots.length = 1 := by
  have hrun : ∃ w, Run.ReachableVia (World.step (reportAct Sample.reportEnv)) ClosesSettled reportStart w ∧
      w.store.snapshots.length = 1 :=
    ⟨_, (Run.ReachableVia.single (a := (0, .insertMissing Sample.request 0)) nofun rfl).trans
      (.single (a := (0, .insertJob 0)) nofun rfl), rfl⟩
  obtain ⟨w, h, hlength⟩ := hrun
  obtain ⟨hquiet, hunique⟩ := refresh_never_stuck h
  exact ⟨w, h, hquiet, hunique, hlength⟩

/-- A request between the save of a report and the last update of its job finds the job running and adds
none: when all is done the snapshot is queued for good. -/
theorem refresh_stuck :
    ∃ w, Run.Reachable (World.step (reportAct Sample.reportEnv)) reportStart w ∧ Quiet w ∧
      ∃ row ∈ w.store.snapshots, row.refreshStatus = .queued ∧
        ∀ job ∈ w.store.jobs, job.status.active = false := by
  have hrun : Run.run (World.step (reportAct Sample.reportEnv)) reportStart Sample.requestedAgain = some _ := rfl
  refine ⟨_, Run.reachable_of_run hrun, ?_, ?_⟩
  · intro i
    match i with
    | 0 => rfl
    | 1 => rfl
    | 2 => rfl
    | n + 3 => rfl
  · exact ⟨_, List.mem_singleton_self _, rfl, by decide +kernel⟩

end AmoAnalytics.Reports
