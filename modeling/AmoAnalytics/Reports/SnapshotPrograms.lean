import AmoAnalytics.Reports.SnapshotQueue

/-!
# The operations on report snapshots

Where an operation stands between two statements, and what its next statement does. A runner carries the
jobs that it has listed; a computation carries the source time that it read before it.
-/

namespace AmoAnalytics.Reports

/-- A source time with the number of its read. -/
structure SourceRead where
  time : SyncTime
  readAt : ℕ

inductive ReportThread
  | idle
  /-- `compute` after it has read the source time. -/
  | looking (request : ReportRequest) (requireFresh : Bool) (read : SourceRead)
  /-- `compute` before `saveCachedReport`. -/
  | computing (request : ReportRequest) (read : SourceRead)
  /-- Before the update of `enqueueReportCacheRefresh`. -/
  | marking (request : ReportRequest)
  /-- Before the insert of `enqueueReportSnapshotJob`. -/
  | inserting (cacheKey config : String)
  /-- `enqueueStaleReportCacheRefreshJobs` with the source time, before the update of the next row, and
  before its insert. -/
  | selecting (latest : ℤ)
  | staleMarking (rows : List (String × String))
  | staleInserting (cacheKey config : String) (rows : List (String × String))
  /-- `processReportCacheRefreshJobs` after the prune, after the requeue, and before the next lock. -/
  | requeueing
  | listing
  | locking (jobs : List ListedJob)
  /-- The job is locked; the snapshot is still to be marked. -/
  | locked (job : ListedJob) (jobs : List ListedJob)
  /-- The snapshot is marked; the source time is still to be read. -/
  | marked (job : ListedJob) (jobs : List ListedJob)
  | refreshing (job : ListedJob) (jobs : List ListedJob) (read : SourceRead)
  /-- The report is saved under another key; the snapshot of the job is still to be released. -/
  | releasing (job : ListedJob) (jobs : List ListedJob)
  /-- An error is caught; the snapshot is still to be marked. -/
  | failing (job : ListedJob) (jobs : List ListedJob) (message : String)
  /-- The snapshot is written; the job is still to be closed. -/
  | closing (job : ListedJob) (jobs : List ListedJob) (error : Option String)

inductive ReportAction
  /-- The source is synchronised. -/
  | sync (time : SyncTime)
  | beginCompute (request : ReportRequest) (requireFresh : Bool)
  | look
  | beginRefresh (request : ReportRequest)
  | mark (now : ℤ)
  | insertMissing (request : ReportRequest) (now : ℤ)
  | insertJob (now : ℤ)
  | beginStale
  | selectStale (now : ℤ) (limit : ℕ)
  | markStale (now : ℤ)
  | prune (now : ℤ)
  | requeue (now : ℤ)
  | list (limit : ℕ)
  | lock (now : ℤ)
  | markRunning (now : ℤ)
  | readSource
  /-- The report is computed and saved; a normalised request may have another key. -/
  | save (cacheKey content name config : String) (quality : QualityStatus) (cutoffAt : SyncTime)
      (enforce : Bool) (now : ℤ)
  | release (now : ℤ)
  | fail (message : String)
  | markError (now : ℤ)
  /-- The last update of the job; the process may be recycled after it. -/
  | close (recycled : Bool) (now : ℤ)

/-- A read of the source time. -/
def ReportDb.readSource (db : ReportDb) : ReportDb × SourceRead :=
  ({ db with reads := db.reads ++ [db.latestSyncAt] }, ⟨db.latestSyncAt, db.reads.length⟩)

/-- What `compute` does with the cached report. -/
def afterLook (env : ReportEnv) (db : ReportDb) (request : ReportRequest) (requireFresh : Bool)
    (read : SourceRead) : ReportThread :=
  match (db.findSnapshot request.cacheKey).filter fun row => row.payload ≠ .pending with
  | none => .computing request read
  | some row =>
    if requireFresh then
      if read.time.any fun latest => row.sourceSyncAt.before latest then .computing request read else .idle
    else if cacheIsStale env row.sourceSyncAt read.time then .marking request
    else .idle

/-- What a runner does when a job is behind it. -/
def nextJob (recycled : Bool) (jobs : List ListedJob) : ReportThread :=
  if recycled then .idle else .locking jobs

/-- The next statement of an operation. -/
def reportAct (env : ReportEnv) (db : ReportDb) : ReportThread → ReportAction → Option (ReportDb × ReportThread)
  | .idle, .sync time => if db.latestSyncAt.le time then some ({ db with latestSyncAt := time }, .idle) else none
  | .idle, .beginCompute request requireFresh =>
    some (db.readSource.1, .looking request requireFresh db.readSource.2)
  | .looking request requireFresh read, .look => some (db, afterLook env db request requireFresh read)
  | .looking _ _ _, .fail _ => some (db, .idle)
  | .computing _ _, .fail _ => some (db, .idle)
  | .computing request read, .save _ content name config quality cutoffAt enforce now =>
    some (db.save request.cacheKey
      ⟨content, name, config, read.time, read.readAt, quality, cutoffAt, enforce⟩ now, .idle)
  | .idle, .beginRefresh request => some (db, .marking request)
  | .marking request, .mark now => some (db.markForRefresh request now, .inserting request.cacheKey request.config)
  | .idle, .insertMissing request now =>
    some (db.insertMissing request now, .inserting request.cacheKey request.config)
  | .inserting cacheKey config, .insertJob now => some (db.enqueueJob cacheKey config now, .idle)
  | .idle, .beginStale => db.latestSyncAt.map fun latest => (db, .selecting latest)
  | .selecting latest, .selectStale now limit => some (db, .staleMarking (db.staleRows env latest now limit))
  | .staleMarking [], .markStale _ => some (db, .idle)
  | .staleMarking ((cacheKey, config) :: rows), .markStale now =>
    some (db.updateSnapshot cacheKey (·.markStale now), .staleInserting cacheKey config rows)
  | .staleInserting cacheKey config rows, .insertJob now =>
    some (db.enqueueJob cacheKey config now, .staleMarking rows)
  | .idle, .prune now => some (db.prune now, .requeueing)
  | .requeueing, .requeue now => some (db.requeue now, .listing)
  | .listing, .list limit => some (db, .locking (db.listJobs limit))
  | .locking [], .lock _ => some (db, .idle)
  | .locking (job :: jobs), .lock now =>
    match db.lockJob job.id now with
    | some db => some (db, .locked job jobs)
    | none => some (db, .locking jobs)
  | .locked job jobs, .markRunning now => some (db.updateSnapshot job.cacheKey (·.markRunning now), .marked job jobs)
  | .marked job jobs, .readSource => some (db.readSource.1, .refreshing job jobs db.readSource.2)
  | .marked job jobs, .fail message => some (db, .failing job jobs message)
  | .refreshing job jobs _, .fail message => some (db, .failing job jobs message)
  | .refreshing job jobs read, .save cacheKey content name config quality cutoffAt enforce now =>
    some (db.save cacheKey ⟨content, name, config, read.time, read.readAt, quality, cutoffAt, enforce⟩ now,
      if cacheKey = job.cacheKey then .closing job jobs none else .releasing job jobs)
  | .releasing job jobs, .release now =>
    some (db.updateSnapshot job.cacheKey (·.release now), .closing job jobs none)
  | .failing job jobs message, .markError now =>
    some (db.updateSnapshot job.cacheKey (·.fail message now), .closing job jobs (some message))
  | .closing job jobs error, .close recycled now =>
    some (db.updateJob job.id (·.close error now), nextJob recycled jobs)
  | _, _ => none

/-! ## What a statement can do -/

/-- The operation will still insert a job of the key, or write its snapshot. -/
def ReportThread.writes : ReportThread → String → Prop
  | .inserting cacheKey _, k => cacheKey = k
  | .staleInserting cacheKey _ _, k => cacheKey = k
  | .locked job _, k => job.cacheKey = k
  | .marked job _, k => job.cacheKey = k
  | .refreshing job _ _, k => job.cacheKey = k
  | .releasing job _, k => job.cacheKey = k
  | .failing job _ _, k => job.cacheKey = k
  | _, _ => False

/-- The source time under which the report is computed. -/
def ReportThread.sourceRead : ReportThread → Option SourceRead
  | .looking _ _ read => some read
  | .computing _ read => some read
  | .refreshing _ _ read => some read
  | _ => none

/-- The report that the operation saves by the action, with its key. -/
def ReportThread.saves : ReportThread → ReportAction → Option (String × SavedReport)
  | .computing request read, .save _ content name config quality cutoffAt enforce _ =>
    some (request.cacheKey, ⟨content, name, config, read.time, read.readAt, quality, cutoffAt, enforce⟩)
  | .refreshing _ _ read, .save cacheKey content name config quality cutoffAt enforce _ =>
    some (cacheKey, ⟨content, name, config, read.time, read.readAt, quality, cutoffAt, enforce⟩)
  | _, _ => none

/-- A change of a row that keeps its key, its report and the source time of the report. -/
structure SameReport (f : Snapshot → Snapshot) : Prop where
  cacheKey : ∀ row, (f row).cacheKey = row.cacheKey
  payload : ∀ row, (f row).payload = row.payload
  sourceSyncAt : ∀ row, (f row).sourceSyncAt = row.sourceSyncAt
  publishedRead : ∀ row, (f row).publishedRead = row.publishedRead

/-- The change of the tables by one statement. -/
inductive TableChange (db db' : ReportDb) : ReportThread → ReportAction → ReportThread → Prop
  | kept {thread action thread'} (hsnapshots : db'.snapshots = db.snapshots) (hjobs : db'.jobs = db.jobs)
      (hwrites : ∀ k, thread.writes k → thread'.writes k) : TableChange db db' thread action thread'
  | marked {thread action thread' k f} (hdb : db' = db.updateSnapshot k f) (hsame : SameReport f)
      (hk : thread'.writes k ∨ ∀ row, (f row).refreshStatus.refreshing = false)
      (hwrites : ∀ k', k' ≠ k → thread.writes k' → thread'.writes k') :
      TableChange db db' thread action thread'
  | missing {request now} (hdb : db' = db.insertMissing request now) :
      TableChange db db' .idle (.insertMissing request now) (.inserting request.cacheKey request.config)
  | saved {thread action thread' k saved now} (hdb : db' = db.save k saved now)
      (hsaves : thread.saves action = some (k, saved))
      (hread : thread.sourceRead = some ⟨saved.sourceSyncAt, saved.readAt⟩)
      (hwrites : ∀ k', k' ≠ k → thread.writes k' → thread'.writes k') :
      TableChange db db' thread action thread'
  | enqueued {thread action thread' k config now} (hdb : db' = db.enqueueJob k config now)
      (hwrites : ∀ k', k' ≠ k → thread.writes k' → thread'.writes k') :
      TableChange db db' thread action thread'
  | pruned {now} (hdb : db' = db.prune now) : TableChange db db' .idle (.prune now) .requeueing
  | requeued {now} (hdb : db' = db.requeue now) : TableChange db db' .requeueing (.requeue now) .listing
  | locked {job jobs now} (hdb : db.lockJob job.id now = some db') :
      TableChange db db' (.locking (job :: jobs)) (.lock now) (.locked job jobs)
  | closed {job jobs error recycled now} (hdb : db' = db.updateJob job.id (·.close error now)) :
      TableChange db db' (.closing job jobs error) (.close recycled now) (nextJob recycled jobs)

/-- The change of the source and of its reads. -/
inductive SourceChange (db db' : ReportDb) : ReportThread → ReportThread → Prop
  | kept {thread thread'} (hreads : db'.reads = db.reads)
      (hlatest : db.latestSyncAt.le db'.latestSyncAt = true)
      (hread : thread'.sourceRead = none ∨ thread'.sourceRead = thread.sourceRead) :
      SourceChange db db' thread thread'
  | read {thread thread'} (hreads : db'.reads = db.reads ++ [db.latestSyncAt])
      (hlatest : db'.latestSyncAt = db.latestSyncAt)
      (hread : thread'.sourceRead = some ⟨db.latestSyncAt, db.reads.length⟩) :
      SourceChange db db' thread thread'

@[simp] theorem SyncTime.le_refl (time : SyncTime) : time.le time = true := by
  cases time with
  | none => rfl
  | some t => exact decide_eq_true (Int.le_refl t)

variable {env : ReportEnv} {db db' : ReportDb} {thread thread' : ReportThread} {action : ReportAction}

theorem request_same (request : ReportRequest) (now : ℤ) : SameReport fun row =>
    { row.request now with
      name := request.name, reportConfig := some request.config
      refreshError := if row.refreshStatus.refreshing then row.refreshError else none } := by
  constructor <;> intro row <;> unfold Snapshot.request <;> dsimp only <;> split_ifs <;> rfl

theorem reportAct_tables (h : reportAct env db thread action = some (db', thread')) :
    TableChange db db' thread action thread' := by
  unfold reportAct at h
  split at h
  case h_1 =>
    split_ifs at h
    cases h
    exact .kept rfl rfl fun _ => id
  case h_2 | h_3 | h_4 | h_5 | h_7 | h_12 | h_13 | h_18 | h_19 =>
    cases h
    exact .kept rfl rfl fun _ hk => nomatch hk
  case h_6 =>
    cases h
    exact .saved rfl rfl rfl fun _ _ hk => nomatch hk
  case h_8 request now =>
    cases h
    exact .marked rfl (request_same request now) (Or.inl rfl) fun _ _ hk => nomatch hk
  case h_9 =>
    cases h
    exact .missing rfl
  case h_10 =>
    cases h
    exact .enqueued rfl fun _ hne hk => absurd (Eq.symm hk) hne
  case h_11 =>
    obtain ⟨latest, -, heq⟩ := Option.map_eq_some_iff.1 h
    cases heq
    exact .kept rfl rfl fun _ hk => nomatch hk
  case h_14 =>
    cases h
    exact .marked rfl ⟨fun _ => rfl, fun _ => rfl, fun _ => rfl, fun _ => rfl⟩ (Or.inl rfl)
      fun _ _ hk => nomatch hk
  case h_15 =>
    cases h
    exact .enqueued rfl fun _ hne hk => absurd (Eq.symm hk) hne
  case h_16 =>
    cases h
    exact .pruned rfl
  case h_17 =>
    cases h
    exact .requeued rfl
  case h_20 =>
    split at h
    · rename_i hlock
      cases h
      exact .locked hlock
    · cases h
      exact .kept rfl rfl fun _ hk => nomatch hk
  case h_21 =>
    cases h
    exact .marked rfl ⟨fun _ => rfl, fun _ => rfl, fun _ => rfl, fun _ => rfl⟩ (Or.inl rfl)
      fun _ _ hk => hk
  case h_22 | h_23 | h_24 =>
    cases h
    exact .kept rfl rfl fun _ hk => hk
  case h_25 job jobs read cacheKey content name config quality cutoffAt enforce now =>
    cases h
    refine .saved rfl rfl rfl fun k hne hk => ?_
    split_ifs with hsame
    · exact hne (Eq.symm (hsame.trans hk))
    · exact hk
  case h_26 =>
    cases h
    exact .marked rfl ⟨fun _ => rfl, fun _ => rfl, fun _ => rfl, fun _ => rfl⟩ (Or.inr fun _ => rfl)
      fun _ hne hk => hne (Eq.symm hk)
  case h_27 =>
    cases h
    exact .marked rfl ⟨fun _ => rfl, fun _ => rfl, fun _ => rfl, fun _ => rfl⟩ (Or.inr fun _ => rfl)
      fun _ hne hk => hne (Eq.symm hk)
  case h_28 =>
    cases h
    exact .closed rfl
  case h_29 => cases h

theorem ReportDb.save_source (db : ReportDb) (k : String) (saved : SavedReport) (now : ℤ) :
    (db.save k saved now).reads = db.reads ∧ (db.save k saved now).latestSyncAt = db.latestSyncAt := by
  unfold ReportDb.save
  split_ifs <;> exact ⟨rfl, rfl⟩

theorem reportAct_source (h : reportAct env db thread action = some (db', thread')) :
    SourceChange db db' thread thread' := by
  have hsame : ∀ {thread thread' : ReportThread} {db' : ReportDb}, db'.reads = db.reads →
      db'.latestSyncAt = db.latestSyncAt → thread'.sourceRead = none ∨ thread'.sourceRead = thread.sourceRead →
      SourceChange db db' thread thread' :=
    fun hreads hlatest hread => .kept hreads (by rw [hlatest]; exact SyncTime.le_refl _) hread
  unfold reportAct at h
  split at h
  case h_1 =>
    split_ifs at h with hle
    cases h
    exact .kept rfl hle (Or.inl rfl)
  case h_2 | h_22 =>
    cases h
    exact .read rfl rfl rfl
  case h_3 request requireFresh read =>
    cases h
    refine hsame rfl rfl ?_
    unfold afterLook
    split
    · exact Or.inr rfl
    · split_ifs
      · exact Or.inr rfl
      · exact Or.inl rfl
      · exact Or.inl rfl
      · exact Or.inl rfl
  case h_6 =>
    cases h
    exact hsame (ReportDb.save_source db _ _ _).1 (ReportDb.save_source db _ _ _).2 (Or.inl rfl)
  case h_9 request now =>
    cases h
    refine hsame ?_ ?_ (Or.inl rfl) <;> rw [ReportDb.insertMissing] <;> split_ifs <;> rfl
  case h_10 cacheKey config now =>
    cases h
    refine hsame ?_ ?_ (Or.inl rfl) <;> rw [ReportDb.enqueueJob] <;> split_ifs <;> rfl
  case h_15 cacheKey config rows now =>
    cases h
    refine hsame ?_ ?_ (Or.inl rfl) <;> rw [ReportDb.enqueueJob] <;> split_ifs <;> rfl
  case h_11 =>
    obtain ⟨latest, -, heq⟩ := Option.map_eq_some_iff.1 h
    cases heq
    exact hsame rfl rfl (Or.inl rfl)
  case h_20 job jobs now =>
    split at h
    · rename_i hlock
      cases h
      unfold ReportDb.lockJob at hlock
      split_ifs at hlock
      cases hlock
      exact hsame rfl rfl (Or.inl rfl)
    · cases h
      exact hsame rfl rfl (Or.inl rfl)
  case h_25 job jobs read cacheKey content name config quality cutoffAt enforce now =>
    cases h
    refine hsame (ReportDb.save_source db _ _ _).1 (ReportDb.save_source db _ _ _).2 (Or.inl ?_)
    split_ifs <;> rfl
  case h_28 job jobs error recycled now =>
    cases h
    refine hsame rfl rfl (Or.inl ?_)
    unfold nextJob
    split_ifs <;> rfl
  case h_29 => cases h
  all_goals
    cases h
    exact hsame rfl rfl (Or.inl rfl)

/-! ## Worlds -/

/-- No operation is in progress. -/
def Quiet (w : World ReportDb ReportThread) : Prop := ∀ i, w.locals i = .idle

/-- Empty tables and no operation in progress. -/
def reportStart : World ReportDb ReportThread := World.start {} .idle

end AmoAnalytics.Reports
