import AmoAnalytics.Amo.SyncJob

/-!
# Who owns a job

A job is taken by reading a `QUEUED` row and started by an update that does not ask for the status
again; the recovery of stale jobs closes rows without asking who works on them. `syncAct_jobs` lists
what the statements do to the job table. Where a job is started from `QUEUED` only and the recovery
closes no job under execution (`Orderly`), a job has one owner and ends once.
-/

namespace AmoAnalytics.Amo

variable {env : SyncEnv}

/-! ## The writes of the job table -/

/-- The job that a program executes: it has marked the row `RUNNING` and not yet ended it. -/
def SyncProgram.executes : SyncProgram → Option String
  | .started job _ | .running job _ _ | .subscribing job _ _ _ _ | .catching job _ => some job.id
  | _ => none

/-- The active pull jobs of a connection. -/
def activePull (connectionId : String) (job : SyncJob) : Bool :=
  job.connectionId = connectionId && isPull job.type && job.status.active

/-- A change of a row that keeps what identifies it. -/
structure SameJob (f : SyncJob → SyncJob) : Prop where
  id : ∀ job, (f job).id = job.id
  connectionId : ∀ job, (f job).connectionId = job.connectionId
  type : ∀ job, (f job).type = job.type

theorem touch_same (now : ℤ) (step : String) : SameJob (·.touch now step) :=
  ⟨fun _ => rfl, fun _ => rfl, fun _ => rfl⟩

theorem start_same (now : ℤ) : SameJob (·.start now) := ⟨fun _ => rfl, fun _ => rfl, fun _ => rfl⟩

theorem expire_same (now : ℤ) : SameJob (·.expire now) := ⟨fun _ => rfl, fun _ => rfl, fun _ => rfl⟩

theorem succeed_same (now : ℤ) (stats : List (String × ℚ)) : SameJob (·.succeed now stats) :=
  ⟨fun _ => rfl, fun _ => rfl, fun _ => rfl⟩

theorem fail_same (now : ℤ) (message : String) (stats : List (String × ℚ)) :
    SameJob (·.fail now message stats) :=
  ⟨fun _ => rfl, fun _ => rfl, fun _ => rfl⟩

/-- What a statement does to the job table. -/
inductive JobsChange (env : SyncEnv) (db db' : SyncDb) : SyncProgram → SyncAction → SyncProgram → Prop
  | kept {program action program'} (hjobs : db'.jobs = db.jobs)
      (hexecutes : program'.executes = none ∨ program'.executes = program.executes) :
      JobsChange env db db' program action program'
  | expired {read intent now program'}
      (hjobs : db'.jobs =
        Table.updateWhere (expires env.settings read.id now) (·.expire now) db.jobs)
      (hexecutes : program'.executes = none) :
      JobsChange env db db' (.recovering read intent) (.expire now) program'
  | created {read intent jobId now pending job program'} (hjobs : db'.jobs = db.jobs ++ [job])
      (hfresh : ∀ row ∈ db.jobs, row.id ≠ job.id)
      (hpull : isPull job.type = true → ∀ row ∈ db.jobs, activePull job.connectionId row = false)
      (hexecutes : program'.executes = none) :
      JobsChange env db db' (.ready read intent) (.create jobId now pending) program'
  | started {job read now} (hjobs : db'.jobs =
        Table.updateWhere (fun row => decide (row.id = job.id)) (·.start now) db.jobs) :
      JobsChange env db db' (.loaded job read) (.start now) (.started job read)
  | touched {program action program' id f} (hsame : SameJob f) (hstatus : ∀ row, (f row).status = row.status)
      (hjobs : db'.jobs = Table.updateWhere (fun row => decide (row.id = id)) f db.jobs)
      (hexecutes : program'.executes = program.executes) :
      JobsChange env db db' program action program'
  | ended {program action program' id f} (hsame : SameJob f)
      (hstatus : ∀ row, (f row).status.active = false)
      (hprogram : program.executes = some id)
      (hjobs : db'.jobs = Table.updateWhere (fun row => decide (row.id = id)) f db.jobs)
      (hexecutes : program'.executes = none) : JobsChange env db db' program action program'
  | failedLate {job read syncStartedAt finishedAt message} (hjobs : db'.jobs = db.jobs) :
      JobsChange env db db' (.finished job read syncStartedAt finishedAt) (.fail message)
        (.catching job message)

theorem jobToCreate_spec {db : SyncDb} {connection : AmoConnection} {intent : Intent} {id : String}
    {now : ℤ} {pending : Bool} {job : SyncJob}
    (h : jobToCreate db connection intent id now pending = some job) :
    job.id = id ∧ (isPull job.type = true → ∀ row ∈ db.jobs, activePull job.connectionId row = false) ∧
      job.status = .queued := by
  have hnone : ∀ {p : SyncJobType → Bool}, ¬ db.activeJobs connection.id p ≠ [] →
      ∀ row ∈ db.jobs, (row.connectionId = connection.id && p row.type && row.status.active) = false := by
    intro p hempty row hrow
    rw [not_not, SyncDb.activeJobs, List.filter_eq_nil_iff] at hempty
    simpa using hempty row hrow
  unfold jobToCreate at h
  cases intent with
  | enqueue type | trigger type =>
    simp only [] at h
    split_ifs at h with htype hactive
    cases h
    exact ⟨rfl, fun _ => hnone hactive, rfl⟩
  | triggerWebhook =>
    simp only [] at h
    split_ifs at h
    cases h
    exact ⟨rfl, fun hpull => (Bool.false_ne_true hpull).elim, rfl⟩
  | tick => cases h

theorem syncAct_jobs {db db' : SyncDb} {program program' : SyncProgram} {action : SyncAction}
    (h : syncAct env db program action = some (db', program')) :
    JobsChange env db db' program action program' := by
  have hread : ∀ {row : Option AmoConnection} {f : AmoConnection → SyncProgram} {program action},
      (∀ c, (f c).executes = none ∨ (f c).executes = program.executes) →
      row.map (fun read => (db, f read)) = some (db', program') →
        JobsChange env db db' program action program' := by
    intro row f program action hf hmap
    obtain ⟨read, -, heq⟩ := Option.map_eq_some_iff.1 hmap
    cases heq
    exact .kept rfl (hf read)
  unfold syncAct at h
  split at h
  case h_1 => cases h; exact .kept rfl (Or.inl rfl)
  case h_2 => exact hread (fun _ => Or.inl rfl) h
  case h_3 => cases h; exact .kept rfl (Or.inl rfl)
  case h_4 => exact hread (fun _ => Or.inl rfl) h
  case h_5 =>
    split at h
    · cases h; exact .kept rfl (Or.inl rfl)
    · exact hread (fun _ => Or.inl rfl) h
  case h_6 => exact hread (fun _ => Or.inl rfl) h
  case h_7 => cases h; exact .expired rfl (by split_ifs <;> rfl)
  case h_8 => cases h; exact .kept rfl (Or.inl rfl)
  case h_9 =>
    split_ifs at h with hfresh
    split at h
    · cases h; exact .kept rfl (Or.inl rfl)
    · rename_i read intent jobId now pending _ job hjob
      cases h
      obtain ⟨hid, hpull, -⟩ := jobToCreate_spec hjob
      refine .created rfl ?_ hpull (by cases intent <;> rfl)
      intro row hrow heq
      exact hfresh (List.any_eq_true.2 ⟨row, hrow, by simp [heq, hid]⟩)
  case h_10 => cases h; exact .kept rfl (Or.inl rfl)
  case h_11 => cases h; exact .kept rfl (Or.inl (by split <;> rfl))
  case h_12 =>
    split at h
    · cases h; exact .kept rfl (Or.inl rfl)
    · exact hread (fun _ => Or.inl rfl) h
  case h_13 => cases h; exact .started rfl
  case h_14 => cases h; exact .kept rfl (Or.inr rfl)
  case h_15 => cases h; exact .touched (touch_same _ _) (fun _ => rfl) rfl rfl
  case h_16 =>
    refine hread ?_ h
    exact fun _ => Or.inr rfl
  case h_17 => cases h; exact .kept rfl (Or.inr rfl)
  case h_18 => cases h; exact .kept rfl (Or.inr rfl)
  case h_19 => cases h; exact .kept rfl (Or.inr rfl)
  case h_20 => cases h; exact .ended (succeed_same _ _) (fun _ => rfl) rfl rfl rfl
  case h_21 => cases h; exact .kept rfl (Or.inl rfl)
  case h_22 => cases h; exact .failedLate rfl
  case h_23 => cases h; exact .ended (fail_same _ _ _) (fun _ => rfl) rfl rfl rfl
  case h_24 => cases h; exact .kept rfl (Or.inl rfl)
  case h_25 => cases h

/-! ## Orderly runs -/

/-- A job is started while it is `QUEUED`, the recovery closes no job that a program executes, and the
last write of a successful job does not fail. -/
def Orderly (env : SyncEnv) (w : World SyncDb SyncProgram) (a : ℕ × SyncAction) : Prop :=
  match w.locals a.1, a.2 with
  | .loaded job _, .start _ => ∃ row ∈ w.store.jobs, row.id = job.id ∧ row.status = .queued
  | .recovering read _, .expire now =>
    ∀ row ∈ w.store.jobs, expires env.settings read.id now row = true →
      ∀ i, (w.locals i).executes ≠ some row.id
  | .finished _ _ _ _, .fail _ => False
  | _, _ => True

/-- The invariant of orderly runs. -/
structure Owned (w : World SyncDb SyncProgram) : Prop where
  ids : (w.store.jobs.map SyncJob.id).Nodup
  pulls : ∀ connectionId, w.store.jobs.countP (activePull connectionId) ≤ 1
  running : ∀ i id, (w.locals i).executes = some id →
    ∃ row ∈ w.store.jobs, row.id = id ∧ row.status = .running
  single : ∀ i j, i ≠ j → ∀ id, (w.locals i).executes = some id → (w.locals j).executes ≠ some id

section Rows

variable {jobs : List SyncJob} {f : SyncJob → SyncJob} {p : SyncJob → Bool}

theorem ids_updateWhere (hsame : SameJob f) :
    (Table.updateWhere p f jobs).map SyncJob.id = jobs.map SyncJob.id :=
  Table.map_updateWhere _ fun row _ => hsame.id row

theorem pulls_updateWhere (hsame : SameJob f) {connectionId : String}
    (hactive : ∀ row ∈ jobs, p row = true → (f row).status.active = true → row.status.active = true) :
    (Table.updateWhere p f jobs).countP (activePull connectionId) ≤
      jobs.countP (activePull connectionId) := by
  refine Table.countP_updateWhere_le fun row hrow hp hq => ?_
  unfold activePull at hq ⊢
  rw [hsame.connectionId, hsame.type, Bool.and_eq_true] at hq
  rw [hq.1, hactive row hrow hp hq.2]
  rfl

theorem eq_of_id (hids : (jobs.map SyncJob.id).Nodup) {row row' : SyncJob} (hrow : row ∈ jobs)
    (hrow' : row' ∈ jobs) (hid : row.id = row'.id) : row = row' :=
  List.inj_on_of_nodup_map hids hrow hrow' hid

/-- A row with another id is not touched. -/
theorem mem_update_of_ne {id : String} {row : SyncJob} (hrow : row ∈ jobs) (hne : row.id ≠ id) :
    row ∈ Table.updateWhere (fun r => decide (r.id = id)) f jobs :=
  Table.mem_updateWhere_of_not hrow (decide_eq_false hne)

theorem mem_update_of_eq {id : String} {row : SyncJob} (hrow : row ∈ jobs) (heq : row.id = id) :
    f row ∈ Table.updateWhere (fun r => decide (r.id = id)) f jobs :=
  Table.mem_updateWhere_of_pos hrow (decide_eq_true heq)

end Rows

/-- The ended jobs of `jobs` are the ended jobs of `jobs'`, with the same status. -/
def EndedKept (jobs jobs' : List SyncJob) : Prop :=
  ∀ row ∈ jobs, row.status.active = false →
    ∃ row' ∈ jobs', row'.id = row.id ∧ row'.status = row.status

theorem EndedKept.refl (jobs : List SyncJob) : EndedKept jobs jobs :=
  fun row hrow _ => ⟨row, hrow, rfl, rfl⟩

theorem EndedKept.trans {jobs₁ jobs₂ jobs₃ : List SyncJob} (h₁₂ : EndedKept jobs₁ jobs₂)
    (h₂₃ : EndedKept jobs₂ jobs₃) : EndedKept jobs₁ jobs₃ := by
  intro row hrow hended
  obtain ⟨row₂, hrow₂, hid₂, hstatus₂⟩ := h₁₂ row hrow hended
  obtain ⟨row₃, hrow₃, hid₃, hstatus₃⟩ := h₂₃ row₂ hrow₂ (by rw [hstatus₂, hended])
  exact ⟨row₃, hrow₃, hid₃.trans hid₂, hstatus₃.trans hstatus₂⟩

section Step

variable {w : World SyncDb SyncProgram} {i : ℕ} {program' : SyncProgram} {db' : SyncDb}

/-- A step after which the acting program executes no other job than before, on a table that still has
the executed jobs as `RUNNING`. -/
theorem Owned.quiet (hw : Owned w)
    (hexecutes : program'.executes = none ∨ program'.executes = (w.locals i).executes)
    (hids : (db'.jobs.map SyncJob.id).Nodup)
    (hpulls : ∀ connectionId, db'.jobs.countP (activePull connectionId) ≤ 1)
    (hrunning : ∀ j id, (w.locals j).executes = some id → (j = i → program'.executes = some id) →
      ∀ row ∈ w.store.jobs, row.id = id → row.status = .running →
        ∃ row' ∈ db'.jobs, row'.id = id ∧ row'.status = .running) :
    Owned ⟨db', Function.update w.locals i program'⟩ := by
  have hback : ∀ j id, (Function.update w.locals i program' j).executes = some id →
      (w.locals j).executes = some id ∧ (j = i → program'.executes = some id) := by
    intro j id hj
    by_cases hji : j = i
    · subst hji
      rw [Function.update_self] at hj
      refine ⟨?_, fun _ => hj⟩
      rcases hexecutes with hnone | hsame
      · rw [hnone] at hj
        cases hj
      · exact hsame.symm.trans hj
    · rw [Function.update_of_ne hji] at hj
      exact ⟨hj, fun h => absurd h hji⟩
  refine ⟨hids, hpulls, fun j id hj => ?_, fun j k hjk id hj hk => ?_⟩
  · obtain ⟨hold, hself⟩ := hback j id hj
    obtain ⟨row, hrow, hid, hstatus⟩ := hw.running j id hold
    exact hrunning j id hold hself row hrow hid hstatus
  · exact hw.single j k hjk id (hback j id hj).1 (hback k id hk).1

theorem Owned.expired (hw : Owned w) {settings : StaleSettings} {connectionId : String} {now : ℤ}
    (hG : ∀ row ∈ w.store.jobs, expires settings connectionId now row = true →
      ∀ j, (w.locals j).executes ≠ some row.id)
    (hjobs : db'.jobs = Table.updateWhere (expires settings connectionId now) (·.expire now) w.store.jobs)
    (hexecutes : program'.executes = none) :
    Owned ⟨db', Function.update w.locals i program'⟩ ∧ EndedKept w.store.jobs db'.jobs := by
  constructor
  · refine hw.quiet (Or.inl hexecutes) ?_ (fun c => ?_) fun j id hj _ row hrow hid hstatus => ?_
    · rw [hjobs, ids_updateWhere (expire_same now)]
      exact hw.ids
    · rw [hjobs]
      exact (pulls_updateWhere (expire_same now) fun _ _ _ hactive => by cases hactive).trans (hw.pulls c)
    · refine ⟨row, ?_, hid, hstatus⟩
      rw [hjobs]
      refine Table.mem_updateWhere_of_not hrow (Bool.eq_false_iff.2 fun hexpires => ?_)
      exact hG row hrow hexpires j (hid ▸ hj)
  · intro row hrow hended
    refine ⟨row, ?_, rfl, rfl⟩
    rw [hjobs]
    refine Table.mem_updateWhere_of_not hrow ?_
    simp [expires, hended]

theorem Owned.created (hw : Owned w) {job : SyncJob} (hjobs : db'.jobs = w.store.jobs ++ [job])
    (hfresh : ∀ row ∈ w.store.jobs, row.id ≠ job.id)
    (hpull : isPull job.type = true → ∀ row ∈ w.store.jobs, activePull job.connectionId row = false)
    (hexecutes : program'.executes = none) :
    Owned ⟨db', Function.update w.locals i program'⟩ ∧ EndedKept w.store.jobs db'.jobs := by
  constructor
  · refine hw.quiet (Or.inl hexecutes) ?_ (fun c => ?_) fun j id _ _ row hrow hid hstatus => ?_
    · rw [hjobs, List.map_append, List.nodup_append]
      refine ⟨hw.ids, List.nodup_singleton _, fun a ha b hb => ?_⟩
      obtain ⟨row, hrow, rfl⟩ := List.mem_map.1 ha
      obtain rfl := List.mem_singleton.1 hb
      exact hfresh row hrow
    · rw [hjobs, List.countP_append]
      by_cases hactive : activePull c job = true
      · have hc : job.connectionId = c ∧ isPull job.type = true := by
          simp only [activePull, Bool.and_eq_true, decide_eq_true_eq] at hactive
          exact hactive.1
        have hnone : w.store.jobs.countP (activePull c) = 0 :=
          List.countP_eq_zero.2 fun row hrow => by
            rw [← hc.1, hpull hc.2 row hrow]
            exact Bool.false_ne_true
        rw [hnone, Nat.zero_add]
        exact List.countP_le_length
      · have hnone : [job].countP (activePull c) = 0 :=
          List.countP_eq_zero.2 fun row hrow => by rwa [List.mem_singleton.1 hrow]
        rw [hnone]
        exact hw.pulls c
    · exact ⟨row, by rw [hjobs]; exact List.mem_append_left _ hrow, hid, hstatus⟩
  · intro row hrow _
    exact ⟨row, by rw [hjobs]; exact List.mem_append_left _ hrow, rfl, rfl⟩

theorem Owned.started (hw : Owned w) {job : SyncJob} {now : ℤ}
    (hG : ∃ row ∈ w.store.jobs, row.id = job.id ∧ row.status = .queued)
    (hjobs : db'.jobs =
      Table.updateWhere (fun row => decide (row.id = job.id)) (·.start now) w.store.jobs)
    (hexecutes : program'.executes = some job.id) :
    Owned ⟨db', Function.update w.locals i program'⟩ ∧ EndedKept w.store.jobs db'.jobs := by
  obtain ⟨queued, hqueued, hqid, hqstatus⟩ := hG
  -- the row of the job is the queued one, so nobody executes it and it has not ended
  have honly : ∀ row ∈ w.store.jobs, row.id = job.id → row.status = .queued := fun row hrow hid =>
    eq_of_id hw.ids hrow hqueued (hid.trans hqid.symm) ▸ hqstatus
  have hfree : ∀ j, (w.locals j).executes ≠ some job.id := by
    intro j hj
    obtain ⟨row, hrow, hid, hstatus⟩ := hw.running j job.id hj
    exact absurd ((honly row hrow hid).symm.trans hstatus) (by decide)
  constructor
  · refine ⟨?_, fun c => ?_, fun j id hj => ?_, ?_⟩
    · show (db'.jobs.map SyncJob.id).Nodup
      rw [hjobs, ids_updateWhere (start_same now)]
      exact hw.ids
    · show db'.jobs.countP (activePull c) ≤ 1
      rw [hjobs]
      refine (pulls_updateWhere (start_same now) fun row hrow hp _ => ?_).trans (hw.pulls c)
      rw [honly row hrow (of_decide_eq_true hp)]
      rfl
    · show ∃ row ∈ db'.jobs, _
      change (Function.update w.locals i program' j).executes = some id at hj
      rw [hjobs]
      by_cases hji : j = i
      · subst hji
        rw [Function.update_self, hexecutes] at hj
        obtain rfl := Option.some.inj hj
        exact ⟨_, mem_update_of_eq hqueued hqid, hqid, rfl⟩
      · rw [Function.update_of_ne hji] at hj
        obtain ⟨row, hrow, hid, hstatus⟩ := hw.running j id hj
        refine ⟨row, mem_update_of_ne hrow fun heq => ?_, hid, hstatus⟩
        exact hfree j (by rw [hj, ← hid, heq])
    · have hsymm : ∀ a b : SyncProgram, (∀ id, a.executes = some id → b.executes ≠ some id) →
          ∀ id, b.executes = some id → a.executes ≠ some id := fun a b h id hb ha => h id ha hb
      refine World.forall_update₂ hsymm (fun j _ id hid => ?_) hw.single
      obtain rfl := Option.some.inj (hexecutes.symm.trans hid)
      exact hfree j
  · intro row hrow hended
    refine ⟨row, ?_, rfl, rfl⟩
    rw [hjobs]
    refine mem_update_of_ne hrow fun heq => ?_
    rw [honly row hrow heq] at hended
    cases hended

theorem Owned.touched (hw : Owned w) {id : String} {f : SyncJob → SyncJob} (hsame : SameJob f)
    (hstatus : ∀ row, (f row).status = row.status)
    (hjobs : db'.jobs = Table.updateWhere (fun row => decide (row.id = id)) f w.store.jobs)
    (hexecutes : program'.executes = (w.locals i).executes) :
    Owned ⟨db', Function.update w.locals i program'⟩ ∧ EndedKept w.store.jobs db'.jobs := by
  have hrow' : ∀ row ∈ w.store.jobs, ∃ row' ∈ db'.jobs, row'.id = row.id ∧ row'.status = row.status := by
    intro row hrow
    rw [hjobs]
    by_cases hid : row.id = id
    · exact ⟨f row, mem_update_of_eq hrow hid, hsame.id row, hstatus row⟩
    · exact ⟨row, mem_update_of_ne hrow hid, rfl, rfl⟩
  constructor
  · refine hw.quiet (Or.inr hexecutes) ?_ (fun c => ?_) fun j jobId _ _ row hrow hid hrunning => ?_
    · rw [hjobs, ids_updateWhere hsame]
      exact hw.ids
    · rw [hjobs]
      exact (pulls_updateWhere hsame fun row _ _ hactive => hstatus row ▸ hactive).trans (hw.pulls c)
    · obtain ⟨row', hmem, hid', hstatus'⟩ := hrow' row hrow
      exact ⟨row', hmem, hid'.trans hid, hstatus'.trans hrunning⟩
  · exact fun row hrow _ => hrow' row hrow

theorem Owned.ended (hw : Owned w) {id : String} {f : SyncJob → SyncJob} (hsame : SameJob f)
    (hstatus : ∀ row, (f row).status.active = false) (howner : (w.locals i).executes = some id)
    (hjobs : db'.jobs = Table.updateWhere (fun row => decide (row.id = id)) f w.store.jobs)
    (hexecutes : program'.executes = none) :
    Owned ⟨db', Function.update w.locals i program'⟩ ∧ EndedKept w.store.jobs db'.jobs := by
  constructor
  · refine hw.quiet (Or.inl hexecutes) ?_ (fun c => ?_) fun j jobId hj hself row hrow hid hrunning => ?_
    · rw [hjobs, ids_updateWhere hsame]
      exact hw.ids
    · rw [hjobs]
      refine (pulls_updateWhere hsame fun row _ _ hactive => ?_).trans (hw.pulls c)
      rw [hstatus row] at hactive
      cases hactive
    · refine ⟨row, ?_, hid, hrunning⟩
      rw [hjobs]
      refine mem_update_of_ne hrow fun heq => ?_
      have hother : j ≠ i := fun hji => by
        rw [hself hji] at hexecutes
        cases hexecutes
      exact hw.single j i hother id (by rw [hj, ← hid, heq]) howner
  · intro row hrow hended
    refine ⟨row, ?_, rfl, rfl⟩
    rw [hjobs]
    refine mem_update_of_ne hrow fun heq => ?_
    obtain ⟨row', hrow', hid', hrunning⟩ := hw.running i id howner
    rw [eq_of_id hw.ids hrow hrow' (heq.trans hid'.symm), hrunning] at hended
    cases hended

end Step

/-- One orderly step. -/
theorem owned_step {w w' : World SyncDb SyncProgram} {a : ℕ × SyncAction} (hw : Owned w)
    (hG : Orderly env w a) (h : World.step (syncAct env) w a = some w') :
    Owned w' ∧ EndedKept w.store.jobs w'.store.jobs := by
  obtain ⟨i, action⟩ := a
  obtain ⟨db', program', hact, rfl⟩ := World.step_eq_some.1 h
  have hchange := syncAct_jobs hact
  generalize hprogram : w.locals i = program at hact hchange
  unfold Orderly at hG
  simp only [hprogram] at hG
  cases hchange with
  | kept hjobs hexecutes =>
    refine ⟨hw.quiet (hprogram ▸ hexecutes) (hjobs ▸ hw.ids) (hjobs ▸ hw.pulls) ?_,
      hjobs ▸ EndedKept.refl _⟩
    exact fun j id _ _ row hrow hid hstatus => ⟨row, hjobs ▸ hrow, hid, hstatus⟩
  | expired hjobs hexecutes => exact hw.expired hG hjobs hexecutes
  | created hjobs hfresh hpull hexecutes => exact hw.created hjobs hfresh hpull hexecutes
  | started hjobs => exact hw.started hG hjobs rfl
  | touched hsame hstatus hjobs hexecutes =>
    exact hw.touched hsame hstatus hjobs (hprogram ▸ hexecutes)
  | ended hsame hstatus howner hjobs hexecutes =>
    exact hw.ended hsame hstatus (hprogram ▸ howner) hjobs hexecutes
  | failedLate => exact hG.elim

theorem findJob_eq {db : SyncDb} (hids : (db.jobs.map SyncJob.id).Nodup) {row : SyncJob}
    (hrow : row ∈ db.jobs) : db.findJob row.id = some row := by
  unfold SyncDb.findJob
  rcases hfind : db.jobs.find? fun job => decide (job.id = row.id) with _ | found
  · exact absurd (List.find?_eq_none.1 hfind row hrow) (by simp)
  · have hid : found.id = row.id := by simpa using List.find?_some hfind
    exact hfind.trans (congrArg some (eq_of_id hids (List.mem_of_find?_eq_some hfind) hrow hid))

/-- **Ownership.** In an orderly run a job is executed by one program at a time, a connection has at
most one active pull job, and a job that has ended keeps its status. -/
theorem sync_jobs_owned {db : SyncDb} (hids : (db.jobs.map SyncJob.id).Nodup)
    (hpulls : ∀ connectionId, (db.activeJobs connectionId isPull).length ≤ 1)
    {w w' : World SyncDb SyncProgram}
    (h : Run.ReachableVia (World.step (syncAct env)) (Orderly env) (World.start db .idle) w)
    (h' : Run.ReachableVia (World.step (syncAct env)) (Orderly env) w w') :
    (∀ i j, i ≠ j → ∀ id, (w.locals i).executes = some id → (w.locals j).executes ≠ some id) ∧
    (∀ connectionId, (w.store.activeJobs connectionId isPull).length ≤ 1) ∧
    ∀ job ∈ w.store.jobs, job.status.active = false →
      (w'.store.findJob job.id).map SyncJob.status = some job.status := by
  have hcount : ∀ (db : SyncDb) connectionId,
      db.jobs.countP (activePull connectionId) = (db.activeJobs connectionId isPull).length := by
    intro db connectionId
    rw [List.countP_eq_length_filter]
    rfl
  have hstart : Owned (World.start db .idle) :=
    ⟨hids, fun c => (hcount db c).trans_le (hpulls c), fun i id hi => (Option.some_ne_none id hi.symm).elim,
      fun i j _ id hi => (Option.some_ne_none id hi.symm).elim⟩
  have howned : Owned w := h.invariant (I := Owned) hstart fun _ _ _ hu hG huv => (owned_step hu hG huv).1
  have hkept : Owned w' ∧ EndedKept w.store.jobs w'.store.jobs := by
    refine h'.invariant (I := fun u => Owned u ∧ EndedKept w.store.jobs u.store.jobs)
      ⟨howned, EndedKept.refl _⟩ fun u a v hu hG huv => ?_
    obtain ⟨hv, hended⟩ := owned_step hu.1 hG huv
    exact ⟨hv, hu.2.trans hended⟩
  refine ⟨howned.single, fun c => (hcount w.store c).symm.trans_le (howned.pulls c), ?_⟩
  intro job hjob hended
  obtain ⟨row, hrow, hid, hstatus⟩ := hkept.2 job hjob hended
  rw [← hid, findJob_eq hkept.1.ids hrow, Option.map_some, hstatus]

section Sample

/-- One connection without jobs. -/
def ownedWorld : World SyncDb SyncProgram :=
  .start { connections := fun id => if id = "c1" then some sampleConnection else none } .idle

/-- A job is triggered and executed to its end. -/
theorem sync_jobs_owned_sample :
    ∃ w : World SyncDb SyncProgram,
      (∀ i j, i ≠ j → ∀ id, (w.locals i).executes = some id → (w.locals j).executes ≠ some id) ∧
      (∀ connectionId, (w.store.activeJobs connectionId isPull).length ≤ 1) ∧
      (w.store.findJob "j1").map SyncJob.status = some .success := by
  have hrun : ∃ w : World SyncDb SyncProgram, Run.ReachableVia (World.step (syncAct ⟨fun _ => none, {}⟩))
      (Orderly ⟨fun _ => none, {}⟩) ownedWorld w ∧
      ∃ job ∈ w.store.jobs, job.id = "j1" ∧ job.status = .success := by
    refine ⟨_, (((((Run.ReachableVia.single (a := (0, .begin "c1" (.trigger .full))) ?_ rfl).trans
      (.single (a := (0, .expire 10)) ?_ rfl)).trans
      (.single (a := (0, .create "j1" 10 false)) ?_ rfl)).trans
      (.single (a := (0, .load)) ?_ rfl)).trans
      (.single (a := (0, .start 20)) ?_ rfl)).trans
      ((Run.ReachableVia.single (a := (0, .markSyncing 30)) ?_ rfl).trans
      (.single (a := (0, .finish 40 [])) ?_ rfl)), _, List.mem_singleton_self _, rfl, rfl⟩
    · trivial
    · exact fun row hrow => by cases hrow
    · trivial
    · trivial
    · exact ⟨_, List.mem_singleton_self _, rfl, rfl⟩
    · trivial
    · trivial
  obtain ⟨w, hreach, job, hjob, hid, hstatus⟩ := hrun
  have hids : (ownedWorld.store.jobs.map SyncJob.id).Nodup := List.nodup_nil
  have hpulls : ∀ c, (ownedWorld.store.activeJobs c isPull).length ≤ 1 := fun _ => Nat.zero_le 1
  obtain ⟨hsingle, hactive, hended⟩ := sync_jobs_owned hids hpulls hreach (.refl w)
  refine ⟨w, hsingle, hactive, ?_⟩
  rw [← hid, hended job hjob (by rw [hstatus]; rfl), hstatus]

/-- One process triggers a job, and before it starts the job, the tick of another process takes the
same job from the queue: both execute it. -/
theorem job_executed_twice :
    ∃ w : World SyncDb SyncProgram,
      Run.Reachable (World.step (syncAct ⟨fun _ => none, {}⟩)) ownedWorld w ∧
      (w.locals 0).executes = some "j1" ∧ (w.locals 1).executes = some "j1" := by
  have hrun : Run.run (World.step (syncAct ⟨fun _ => none, {}⟩)) ownedWorld
      [(0, .begin "c1" (.trigger .full)), (0, .expire 10), (1, .begin "c1" (.tick [.full, .incremental])),
        (1, .expire 10), (0, .create "j1" 10 false), (1, .pick), (0, .load), (0, .start 20), (1, .load),
        (1, .start 21)] = some _ := rfl
  exact ⟨_, Run.reachable_of_run hrun, rfl, rfl⟩

end Sample

end AmoAnalytics.Amo
