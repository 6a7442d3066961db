import AmoAnalytics.CrmControl.AnalysisJob
import AmoAnalytics.CrmControl.CaseInvariant

/-!
# Safety of the analysis jobs

Whatever the interleaving of the processes, one job runs at a time under one lease, the budget of
attempts is kept, every attempt is recorded once under its own number, and a process whose lease is
no longer current changes nothing.
-/

namespace AmoAnalytics.CrmControl

open Transaction

variable {env : Env} {db db' : AnalysisDb}

/-! ## The invariant -/

/-- What holds of one job, given the identifiers drawn and the stored attempts. -/
structure AnalysisJob.Ok (env : Env) (n : ℕ) (attempts : List Attempt) (j : AnalysisJob) : Prop where
  drawn : Drawn env n j.id
  running : j.status = .running → j.activeKey = some analysisKey ∧
    ∃ t, j.leaseToken = some t ∧ Drawn env n t
  idle : j.status ≠ .running → j.activeKey = none ∧ j.leaseToken = none
  budget : j.attemptCount ≤ j.attemptLimit
  queued : j.status = .queued → j.attemptCount < j.attemptLimit
  recorded : ∀ a ∈ attempts, a.jobId = j.id → 1 ≤ a.attemptNo ∧ a.attemptNo ≤ j.attemptCount
  current : j.status = .running → 1 ≤ j.attemptCount ∧
    ∀ a ∈ attempts, a.jobId = j.id → a.attemptNo ≠ j.attemptCount

structure AnalysisInv (env : Env) (db : AnalysisDb) : Prop where
  ids : (db.jobs.map (·.id)).Nodup
  ok : ∀ j ∈ db.jobs, j.Ok env db.drawn db.attempts
  single : ∀ j ∈ db.jobs, ∀ j' ∈ db.jobs, j.status = .running → j'.status = .running → j = j'
  attempt_nos : (db.attempts.map fun a => (a.jobId, a.attemptNo)).Nodup
  attempt_drawn : ∀ a ∈ db.attempts, Drawn env db.drawn a.jobId

theorem analysisInv_empty : AnalysisInv env {} := by
  constructor <;> simp

theorem AnalysisJob.Ok.mono {n n' : ℕ} {attempts attempts' : List Attempt} {j : AnalysisJob}
    (h : j.Ok env n attempts) (hn : n ≤ n')
    (hattempts : ∀ a ∈ attempts', a.jobId = j.id → a ∈ attempts) : j.Ok env n' attempts' where
  drawn := h.drawn.mono hn
  running hr := by
    obtain ⟨hkey, t, ht, hdrawn⟩ := h.running hr
    exact ⟨hkey, t, ht, hdrawn.mono hn⟩
  idle := h.idle
  budget := h.budget
  queued := h.queued
  recorded a ha hid := h.recorded a (hattempts a ha hid) hid
  current hr := ⟨(h.current hr).1, fun a ha hid => (h.current hr).2 a (hattempts a ha hid) hid⟩

theorem AnalysisInv.eq_of_id (h : AnalysisInv env db) {j j' : AnalysisJob} (hj : j ∈ db.jobs)
    (hj' : j' ∈ db.jobs) (hid : j.id = j'.id) : j = j' :=
  List.inj_on_of_nodup_map h.ids hj hj' hid

/-- What a step may do to the leases: an old one stays with its job and attempt, or it is gone. -/
structure Moves (env : Env) (db db' : AnalysisDb) : Prop where
  drawn : db.drawn ≤ db'.drawn
  lease : ∀ j' ∈ db'.jobs, ∀ t, j'.leaseToken = some t → Drawn env db.drawn t →
    ∃ j ∈ db.jobs, j.id = j'.id ∧ j.leaseToken = some t ∧ j.attemptCount = j'.attemptCount ∧
      j.attemptLimit = j'.attemptLimit
  grants : ∀ g ∈ db.grants, g ∈ db'.grants

theorem Moves.refl (db : AnalysisDb) : Moves env db db :=
  ⟨le_rfl, fun j hj _ ht _ => ⟨j, hj, rfl, ht, rfl, rfl⟩, fun _ hg => hg⟩

/-- A process knows the attempt under the lease of the job it read. -/
def Leased (env : Env) (db : AnalysisDb) (job : AnalysisJob) : Prop :=
  ∃ t, job.leaseToken = some t ∧ Drawn env db.drawn t ∧ ∀ j ∈ db.jobs, j.id = job.id →
    j.leaseToken = some t → j.attemptCount = job.attemptCount ∧ j.attemptLimit = job.attemptLimit

theorem Leased.moves {job : AnalysisJob} (h : Leased env db job) (hmoves : Moves env db db') :
    Leased env db' job := by
  obtain ⟨t, ht, hdrawn, hsame⟩ := h
  refine ⟨t, ht, hdrawn.mono hmoves.drawn, fun j' hj' hid hlease => ?_⟩
  obtain ⟨j, hj, hjid, hjlease, hcount, hlimit⟩ := hmoves.lease j' hj' t hlease hdrawn
  rw [← hcount, ← hlimit]
  exact hsame j hj (hjid.trans hid) hjlease

/-- A running job that a process has just read. -/
theorem AnalysisInv.leased (h : AnalysisInv env db) {job : AnalysisJob} (hjob : job ∈ db.jobs)
    (hrunning : job.status = .running) : Leased env db job := by
  obtain ⟨-, t, ht, hdrawn⟩ := (h.ok job hjob).running hrunning
  exact ⟨t, ht, hdrawn, fun j hj hid _ => by rw [h.eq_of_id hj hjob hid]; exact ⟨rfl, rfl⟩⟩

/-! ## One update of the jobs -/

section Update

variable {p : AnalysisJob → Bool} {f : AnalysisJob → AnalysisJob} {attempts : List Attempt}
  {grants : List RetryGrant} {n : ℕ}

/-- An update of the jobs, together with the attempts and grants that are added, keeps the invariant
when it leaves the rows it writes in order. -/
theorem AnalysisInv.update (h : AnalysisInv env db) (hid : ∀ j, (f j).id = j.id) (hn : db.drawn ≤ n)
    (hattempts : ∀ a ∈ attempts, a ∈ db.attempts ∨ ∃ j ∈ db.jobs, p j = true ∧ a.jobId = j.id)
    (hnos : (attempts.map fun a => (a.jobId, a.attemptNo)).Nodup)
    (hok : ∀ j ∈ db.jobs, p j = true → (f j).Ok env n attempts)
    (hsingle : ∀ j ∈ Table.updateWhere p f db.jobs, ∀ j' ∈ Table.updateWhere p f db.jobs,
      j.status = .running → j'.status = .running → j = j') :
    AnalysisInv env ⟨Table.updateWhere p f db.jobs, attempts, grants, n⟩ where
  ids := by
    show ((Table.updateWhere p f db.jobs).map (·.id)).Nodup
    rw [Table.map_updateWhere _ fun j _ => hid j]
    exact h.ids
  ok j' hj' := by
    obtain ⟨j, hj, rfl⟩ := Table.mem_updateWhere.1 hj'
    split_ifs with hp
    · exact hok j hj hp
    · refine (h.ok j hj).mono hn fun a ha hjob => (hattempts a ha).resolve_right ?_
      rintro ⟨j₀, hj₀, hp₀, hjob₀⟩
      exact hp (h.eq_of_id hj hj₀ (hjob.symm.trans hjob₀) ▸ hp₀)
  single := hsingle
  attempt_nos := hnos
  attempt_drawn a ha := by
    rcases hattempts a ha with ha | ⟨j, hj, -, hjob⟩
    · exact (h.attempt_drawn a ha).mono hn
    · exact hjob ▸ ((h.ok j hj).drawn.mono hn)

/-- An update that lets no job run leaves at most one running. -/
theorem AnalysisInv.single_of_stopped (h : AnalysisInv env db)
    (hf : ∀ j ∈ db.jobs, p j = true → (f j).status ≠ .running) :
    ∀ j ∈ Table.updateWhere p f db.jobs, ∀ j' ∈ Table.updateWhere p f db.jobs,
      j.status = .running → j'.status = .running → j = j' := by
  intro j hj j' hj' hr hr'
  obtain ⟨j₀, hj₀, rfl⟩ := Table.mem_updateWhere.1 hj
  obtain ⟨j₀', hj₀', rfl⟩ := Table.mem_updateWhere.1 hj'
  split_ifs at hr hr' ⊢ with hp hp' hp'
  · exact absurd hr (hf _ hj₀ hp)
  · exact absurd hr (hf _ hj₀ hp)
  · exact absurd hr' (hf _ hj₀' hp')
  · exact h.single _ hj₀ _ hj₀' hr hr'

/-- The leases after an update that clears them or gives out a new one. -/
theorem moves_update (hn : db.drawn ≤ n)
    (hgrants : ∀ g ∈ db.grants, g ∈ grants)
    (hlease : ∀ j ∈ db.jobs, p j = true → ∀ t, (f j).leaseToken = some t → ¬ Drawn env db.drawn t) :
    Moves env db ⟨Table.updateWhere p f db.jobs, attempts, grants, n⟩ where
  drawn := hn
  lease j' hj' t ht hdrawn := by
    obtain ⟨j, hj, rfl⟩ := Table.mem_updateWhere.1 hj'
    split_ifs at ht ⊢ with hp
    · exact absurd hdrawn (hlease j hj hp t ht)
    · exact ⟨j, hj, rfl, ht, rfl, rfl⟩
  grants := hgrants

end Update

/-! ## The writes -/

theorem insertAttempt_ok {row : Attempt} (h : db.insertAttempt row = .ok db') :
    db' = { db with attempts := db.attempts ++ [row], drawn := db.drawn + 1 } := by
  unfold AnalysisDb.insertAttempt at h
  split_ifs at h
  exact (Except.ok.inj h).symm

theorem insertGrant_ok {row : RetryGrant} (h : db.insertGrant row = .ok db') :
    db' = { db with grants := db.grants ++ [row], drawn := db.drawn + 1 } ∧
      ∀ g ∈ db.grants, g.jobId = row.jobId → g.requestKey ≠ row.requestKey := by
  unfold AnalysisDb.insertGrant at h
  split_ifs at h with hany
  exact ⟨(Except.ok.inj h).symm, by simpa using hany⟩

/-- An update that ends an attempt: the job is released, and queued again only within its budget. -/
structure Releases (job : AnalysisJob) (f : AnalysisJob → AnalysisJob) : Prop where
  id : ∀ j, (f j).id = j.id
  stopped : ∀ j, (f j).status ≠ .running
  released : ∀ j, (f j).activeKey = none ∧ (f j).leaseToken = none
  count : ∀ j, (f j).attemptCount = j.attemptCount ∧ (f j).attemptLimit = j.attemptLimit
  queued : ∀ j, (f j).status = .queued → job.attemptCount < job.attemptLimit

theorem AnalysisInv.release (h : AnalysisInv env db) {job : AnalysisJob} (hleased : Leased env db job)
    {p : AnalysisJob → Bool} {f : AnalysisJob → AnalysisJob} (hf : Releases job f)
    (hany : db.jobs.any p = true) (hp : ∀ j ∈ db.jobs, p j = true →
      j.id = job.id ∧ j.status = .running ∧ j.leaseToken = job.leaseToken) {row : Attempt}
    (hrow : row.jobId = job.id ∧ row.attemptNo = job.attemptCount)
    (hdb : (db.updateJobs p f).insertAttempt row = .ok db') :
    AnalysisInv env db' ∧ Moves env db db' := by
  obtain ⟨t, ht, -, hsame⟩ := hleased
  obtain ⟨j₀, hj₀, hp₀⟩ := List.any_eq_true.1 hany
  -- the one selected row is the attempt that the process read
  have hcount : ∀ j ∈ db.jobs, p j = true →
      j.attemptCount = job.attemptCount ∧ j.attemptLimit = job.attemptLimit := fun j hj hpj =>
    hsame j hj (hp j hj hpj).1 ((hp j hj hpj).2.2.trans ht)
  obtain ⟨hid₀, hr₀, -⟩ := hp j₀ hj₀ hp₀
  have hcurrent := (h.ok j₀ hj₀).current hr₀
  rw [(hcount j₀ hj₀ hp₀).1] at hcurrent
  have hattempt : ∀ a ∈ db.attempts ++ [row], a ∈ db.attempts ∨
      ∃ j ∈ db.jobs, p j = true ∧ a.jobId = j.id := by
    intro a ha
    rcases List.mem_append.1 ha with ha | ha
    · exact Or.inl ha
    · obtain rfl : a = row := by simpa using ha
      exact Or.inr ⟨j₀, hj₀, hp₀, hrow.1.trans hid₀.symm⟩
  obtain rfl := insertAttempt_ok hdb
  refine ⟨h.update hf.id (Nat.le_succ _) hattempt ?_ ?_ (h.single_of_stopped fun j _ _ => hf.stopped j),
    moves_update (Nat.le_succ _) (fun _ hg => hg) fun j _ _ t ht => ?_⟩
  · rw [List.map_append]
    refine List.nodup_append.2 ⟨h.attempt_nos, List.nodup_singleton _, fun x hx b hb hab => ?_⟩
    obtain ⟨a, ha, rfl⟩ := List.mem_map.1 hx
    obtain rfl : b = (row.jobId, row.attemptNo) := by simpa using hb
    refine hcurrent.2 a ha ?_ ?_
    · exact (congrArg Prod.fst hab).trans (hrow.1.trans hid₀.symm)
    · exact (congrArg Prod.snd hab).trans hrow.2
  · intro j hj hpj
    have hok := h.ok j hj
    obtain ⟨hjid, hjr, -⟩ := hp j hj hpj
    obtain ⟨hfcount, hflimit⟩ := hf.count j
    refine ⟨by rw [hf.id]; exact hok.drawn.mono (Nat.le_succ _), fun hr => absurd hr (hf.stopped j),
      fun _ => hf.released j, by rw [hfcount, hflimit]; exact hok.budget, fun hq => ?_, fun a ha hid => ?_,
      fun hr => absurd hr (hf.stopped j)⟩
    · rw [hfcount, hflimit, (hcount j hj hpj).1, (hcount j hj hpj).2]
      exact hf.queued j hq
    · rw [hf.id] at hid
      rw [hfcount]
      rcases List.mem_append.1 ha with ha | ha
      · exact hok.recorded a ha hid
      · obtain rfl : a = row := by simpa using ha
        rw [hrow.2, (hcount j hj hpj).1]
        exact ⟨hcurrent.1, le_rfl⟩
  · rw [(hf.released j).2] at ht
    exact nomatch ht

theorem releases_expire (now : ℤ) (job : AnalysisJob) :
    Releases job (·.expire now (decide (job.attemptCount < job.attemptLimit))) where
  id _ := rfl
  stopped j := by
    simp only [AnalysisJob.expire]
    split_ifs <;> simp
  released _ := ⟨rfl, rfl⟩
  count _ := ⟨rfl, rfl⟩
  queued j hq := by
    simp only [AnalysisJob.expire] at hq
    split_ifs at hq with hlt
    simpa using hlt

theorem outcomeStatus_ne (errorCode : Option String) (assessment : Assessment) :
    outcomeStatus errorCode assessment ≠ .running ∧ outcomeStatus errorCode assessment ≠ .queued := by
  unfold outcomeStatus
  split_ifs <;> simp

/-- The verdict never leaves a job running, and retries only within the budget. -/
theorem releases_finish (analyzer : Analyzer) (now delay : ℤ) (job : AnalysisJob) (outcome : Outcome)
    (rule : Option String) : Releases job (·.finish now delay (verdict analyzer job outcome rule)) where
  id _ := rfl
  stopped j := by
    by_cases hretry : outcome.retryable job = true
    · simp [AnalysisJob.finish, verdict, hretry]
    · simpa [AnalysisJob.finish, verdict, hretry] using (outcomeStatus_ne _ _).1
  released _ := ⟨rfl, rfl⟩
  count _ := ⟨rfl, rfl⟩
  queued j hq := by
    by_cases hretry : outcome.retryable job = true
    · cases outcome with
      | ready => exact nomatch hretry
      | error code retryable =>
        simp only [Outcome.retryable, Bool.and_eq_true, decide_eq_true_eq] at hretry
        exact hretry.2
    · simp only [AnalysisJob.finish, verdict, hretry] at hq
      exact absurd hq (outcomeStatus_ne _ _).2

theorem AnalysisInv.recoverExpired (h : AnalysisInv env db) {now : ℤ} {expired : AnalysisJob}
    (hleased : Leased env db expired) (hdb : recoverExpired env now expired db = .ok db') :
    AnalysisInv env db' ∧ Moves env db db' := by
  unfold CrmControl.recoverExpired at hdb
  split at hdb
  · rename_i hany
    refine h.release hleased (releases_expire now expired) hany (fun j _ hp => ?_) ⟨rfl, rfl⟩ hdb
    simp only [stillExpired, Bool.and_eq_true, decide_eq_true_eq] at hp
    exact ⟨hp.1.1.1, hp.1.1.2, hp.1.2⟩
  · obtain rfl := Except.ok.inj hdb
    exact ⟨h, .refl db⟩

theorem AnalysisInv.finish (h : AnalysisInv env db) {analyzer : Analyzer} {now : ℤ} {job : AnalysisJob}
    {outcome : Outcome} {rule : Option String} (hleased : Leased env db job)
    (hdb : finish env now job outcome (verdict analyzer job outcome rule) db = .ok db') :
    AnalysisInv env db' ∧ Moves env db db' := by
  unfold CrmControl.finish at hdb
  split at hdb
  · rename_i hany
    refine h.release hleased (releases_finish analyzer now _ job outcome rule) hany (fun j _ hp => ?_)
      ⟨rfl, rfl⟩ hdb
    simp only [holdsJob, Bool.and_eq_true, decide_eq_true_eq] at hp
    exact ⟨hp.1.1.1.1.1, hp.1.1.1.1.2, hp.1.1.2⟩
  · obtain rfl := Except.ok.inj hdb
    exact ⟨h, .refl db⟩

/-- A queued job that is outdated ends as an error, its attempts untouched. -/
theorem AnalysisInv.retireOutdatedQueued (h : AnalysisInv env db) (now : ℤ) (options : AnalysisOptions)
    (ids : List String) : AnalysisInv env (retireOutdatedQueued now options ids db) ∧
      Moves env db (retireOutdatedQueued now options ids db) := by
  have hf : ∀ j : AnalysisJob, (j.retire now).status ≠ .running := fun j => by simp [AnalysisJob.retire]
  refine ⟨h.update (fun _ => rfl) le_rfl (fun _ ha => Or.inl ha) h.attempt_nos (fun j hj _ => ?_)
    (h.single_of_stopped fun j _ _ => hf j), moves_update le_rfl (fun _ hg => hg) fun j _ _ t ht => nomatch ht⟩
  have hok := h.ok j hj
  exact ⟨hok.drawn, fun hr => absurd hr (hf j), fun _ => ⟨rfl, rfl⟩, hok.budget,
    fun hq => by simp [AnalysisJob.retire] at hq, hok.recorded, fun hr => absurd hr (hf j)⟩

/-- A failed job is queued again with three more attempts than it has made. -/
theorem AnalysisInv.extendBudget (h : AnalysisInv env db) {job : AnalysisJob} {requestKey : String}
    (hdb : extendBudget env job requestKey db = .ok db') : AnalysisInv env db' ∧ Moves env db db' := by
  unfold CrmControl.extendBudget at hdb
  split at hdb
  · obtain ⟨rfl, -⟩ := insertGrant_ok hdb
    have hf : ∀ n (j : AnalysisJob), (j.requeue n).status ≠ .running := fun n j => by
      simp [AnalysisJob.requeue]
    refine ⟨h.update (fun _ => rfl) (Nat.le_succ _) (fun _ ha => Or.inl ha) h.attempt_nos
      (fun j hj hp => ?_) (h.single_of_stopped fun j _ _ => hf _ j),
      moves_update (Nat.le_succ _) (fun _ hg => List.mem_append_left _ hg) fun j _ _ t ht => nomatch ht⟩
    have hok := h.ok j hj
    obtain ⟨-, -, -, hcount, -⟩ := of_decide_eq_true hp
    have hlt : j.attemptCount < job.attemptCount + attemptsPerRequest := by
      rw [hcount]
      exact Nat.lt_add_of_pos_right (by decide)
    exact ⟨hok.drawn.mono (Nat.le_succ _), fun hr => absurd hr (hf _ j), fun _ => ⟨rfl, rfl⟩, hlt.le,
      fun _ => hlt, hok.recorded, fun hr => absurd hr (hf _ j)⟩
  · obtain rfl := Except.ok.inj hdb
    exact ⟨h, .refl db⟩

/-- A claimed job runs under a new lease; the unique key refuses it while another runs. -/
theorem AnalysisInv.claim (h : AnalysisInv env db) {now : ℤ} {candidate : AnalysisJob}
    {claimed : Option AnalysisJob} (hdb : claim env now candidate db = .ok (db', claimed)) :
    AnalysisInv env db' ∧ Moves env db db' ∧ ∀ job, claimed = some job → Leased env db' job := by
  unfold CrmControl.claim at hdb
  split at hdb
  swap
  · simp only [Except.ok.injEq, Prod.mk.injEq] at hdb
    obtain ⟨rfl, rfl⟩ := hdb
    exact ⟨h, .refl db, fun _ hjob => nomatch hjob⟩
  rename_i hany
  dsimp only at hdb
  split at hdb
  · exact nomatch hdb
  rename_i hcount
  simp only [Except.ok.injEq, Prod.mk.injEq] at hdb
  obtain ⟨rfl, rfl⟩ := hdb
  have hok : ∀ j ∈ db.jobs, stillClaimable now candidate j = true →
      (j.claim now (env.uuid db.drawn)).Ok env (db.drawn + 1) db.attempts := by
    intro j hj hp
    have hjob := h.ok j hj
    simp only [stillClaimable, Bool.and_eq_true, decide_eq_true_eq] at hp
    have hlt := hjob.queued hp.1.1.1.2
    refine ⟨hjob.drawn.mono (Nat.le_succ _), fun _ => ⟨rfl, _, rfl, drawn_next db.drawn⟩,
      fun hne => absurd rfl hne, hlt, fun hq => by simp [AnalysisJob.claim] at hq, fun a ha hid => ?_,
      fun _ => ⟨Nat.le_add_left 1 _, fun a ha hid => ?_⟩⟩
    · obtain ⟨hle, hle'⟩ := hjob.recorded a ha hid
      exact ⟨hle, hle'.trans (Nat.le_succ _)⟩
    · exact Nat.ne_of_lt (Nat.lt_succ_of_le (hjob.recorded a ha hid).2)
  have hkey : ∀ j ∈ Table.updateWhere (stillClaimable now candidate) (·.claim now (env.uuid db.drawn)) db.jobs,
      j.status = .running → j.activeKey = some analysisKey := by
    intro j hj hr
    obtain ⟨j₀, hj₀, rfl⟩ := Table.mem_updateWhere.1 hj
    split_ifs at hr ⊢ with hp
    · rfl
    · exact ((h.ok j₀ hj₀).running hr).1
  have hinv : AnalysisInv env ⟨Table.updateWhere (stillClaimable now candidate)
      (·.claim now (env.uuid db.drawn)) db.jobs, db.attempts, db.grants, db.drawn + 1⟩ := by
    refine h.update (fun _ => rfl) (Nat.le_succ db.drawn) (fun _ ha => Or.inl ha) h.attempt_nos hok ?_
    exact fun j hj j' hj' hr hr' => Table.eq_of_countP_le_one (not_lt.1 hcount) hj hj'
      (by simpa using hkey j hj hr) (by simpa using hkey j' hj' hr')
  refine ⟨hinv, moves_update (Nat.le_succ _) (fun _ hg => hg) fun j _ _ t ht hdrawn => ?_, fun job hjob => ?_⟩
  · exact hdrawn.ne (Option.some.inj ht).symm
  · -- the row that was read back is the claimed one
    obtain ⟨j, hj, hp⟩ := List.any_eq_true.1 hany
    have hrow := Table.mem_updateWhere_of_pos (f := (·.claim now (env.uuid db.drawn))) hj hp
    have hid : job.id = candidate.id := by simpa using List.find?_some hjob
    have hjid : j.id = candidate.id := by
      simp only [stillClaimable, Bool.and_eq_true, decide_eq_true_eq] at hp
      exact hp.1.1.1.1
    have hmem := List.mem_of_find?_eq_some hjob
    have heq : job = j.claim now (env.uuid db.drawn) := hinv.eq_of_id hmem hrow (hid.trans hjid.symm)
    exact hinv.leased hmem (by rw [heq]; rfl)

/-- A new job has a new identifier. -/
theorem AnalysisInv.enqueue (h : AnalysisInv env db) (r : AnalysisRequest) (createdAt : ℤ) :
    AnalysisInv env (db.enqueue env r createdAt) ∧ Moves env db (db.enqueue env r createdAt) := by
  unfold AnalysisDb.enqueue
  split_ifs
  · exact ⟨h, .refl db⟩
  have hnew : ∀ j ∈ db.jobs, j.id ≠ env.uuid db.drawn := fun j hj => (h.ok j hj).drawn.ne
  refine ⟨⟨?_, fun j hj => ?_, fun j hj j' hj' hr hr' => ?_, h.attempt_nos,
    fun a ha => (h.attempt_drawn a ha).mono (Nat.le_succ _)⟩, ⟨Nat.le_succ _, fun j hj t ht _ => ?_,
    fun _ hg => hg⟩⟩
  · rw [List.map_append]
    refine List.nodup_append.2 ⟨h.ids, List.nodup_singleton _, fun a ha b hb hab => ?_⟩
    obtain ⟨j, hj, rfl⟩ := List.mem_map.1 ha
    obtain rfl : b = env.uuid db.drawn := by simpa [newJob] using hb
    exact hnew j hj hab
  · rcases List.mem_append.1 hj with hj | hj
    · exact (h.ok j hj).mono (Nat.le_succ _) fun _ ha _ => ha
    · obtain rfl : j = newJob (env.uuid db.drawn) r createdAt := by simpa using hj
      have hnone : ∀ a ∈ db.attempts, a.jobId ≠ env.uuid db.drawn := fun a ha =>
        (h.attempt_drawn a ha).ne
      exact ⟨drawn_next db.drawn, fun hr => by simp [newJob] at hr, fun _ => ⟨rfl, rfl⟩,
        by simp [newJob], fun _ => by simp [newJob], fun a ha hid => absurd hid (hnone a ha),
        fun hr => by simp [newJob] at hr⟩
  · have hstatus : (newJob (env.uuid db.drawn) r createdAt).status ≠ .running := by simp [newJob]
    rcases List.mem_append.1 hj with hj | hj <;> rcases List.mem_append.1 hj' with hj' | hj'
    · exact h.single j hj j' hj' hr hr'
    · exact absurd (List.mem_singleton.1 hj' ▸ hr') hstatus
    · exact absurd (List.mem_singleton.1 hj ▸ hr) hstatus
    · exact absurd (List.mem_singleton.1 hj ▸ hr) hstatus
  · rcases List.mem_append.1 hj with hj | hj
    · exact ⟨j, hj, rfl, ht, rfl, rfl⟩
    · rw [List.mem_singleton.1 hj] at ht
      exact nomatch ht

/-! ## The processes -/

/-- The job whose lease a process writes under. -/
def AnalysisThread.held : AnalysisThread → Option AnalysisJob
  | .recovering _ _ expired => some expired
  | .analysing _ job => some job
  | _ => none

/-- A process knows the attempt it writes for. -/
def Knows (env : Env) (db : AnalysisDb) (thread : AnalysisThread) : Prop :=
  ∀ job, thread.held = some job → Leased env db job

theorem knows_of_held {thread : AnalysisThread} (h : thread.held = none) : Knows env db thread :=
  fun _ hjob => nomatch h.symm.trans hjob

theorem AnalysisThread.advance_spec (h : AnalysisInv env db) {thread thread' : AnalysisThread}
    (hknows : Knows env db thread) (hact : thread.advance env db = (db', thread')) :
    AnalysisInv env db' ∧ Knows env db' thread' ∧ Moves env db db' := by
  have hsame : ∀ {next : AnalysisThread}, next.held = none → (db, next) = (db', thread') →
      AnalysisInv env db' ∧ Knows env db' thread' ∧ Moves env db db' := by
    rintro next hheld heq
    obtain ⟨rfl, rfl⟩ := Prod.mk.inj heq
    exact ⟨h, knows_of_held hheld, .refl db⟩
  cases thread with
  | idle => exact hsame rfl hact
  | started now options =>
    simp only [AnalysisThread.advance] at hact
    split at hact
    · rename_i expired hfind
      obtain ⟨rfl, rfl⟩ := Prod.mk.inj hact
      refine ⟨h, fun job hjob => ?_, .refl db⟩
      obtain rfl := Option.some.inj hjob
      have hrunning := List.find?_some hfind
      simp only [expiredLease, Bool.and_eq_true, decide_eq_true_eq] at hrunning
      exact h.leased (List.mem_of_find?_eq_some hfind) hrunning.1.1
    · exact hsame rfl hact
  | recovering now options expired =>
    simp only [AnalysisThread.advance] at hact
    split at hact
    · rename_i db₁ hrecover
      obtain ⟨rfl, rfl⟩ := Prod.mk.inj hact
      obtain ⟨hinv, hmoves⟩ := h.recoverExpired (hknows expired rfl) hrecover
      exact ⟨hinv, knows_of_held rfl, hmoves⟩
    · exact hsame rfl hact
  | recovered now options =>
    simp only [AnalysisThread.advance] at hact
    split at hact <;> exact hsame rfl hact
  | retiring now options ids =>
    obtain ⟨rfl, rfl⟩ := Prod.mk.inj hact
    obtain ⟨hinv, hmoves⟩ := h.retireOutdatedQueued now options ids
    exact ⟨hinv, knows_of_held rfl, hmoves⟩
  | retired now options =>
    simp only [AnalysisThread.advance] at hact
    split at hact <;> exact hsame rfl hact
  | claiming now options candidate =>
    simp only [AnalysisThread.advance] at hact
    split at hact
    · rename_i db₁ job hclaim
      obtain ⟨rfl, rfl⟩ := Prod.mk.inj hact
      obtain ⟨hinv, hmoves, hleased⟩ := h.claim hclaim
      exact ⟨hinv, fun job' hjob => Option.some.inj hjob ▸ hleased job rfl, hmoves⟩
    · rename_i db₁ hclaim
      obtain ⟨rfl, rfl⟩ := Prod.mk.inj hact
      obtain ⟨hinv, hmoves, -⟩ := h.claim hclaim
      exact ⟨hinv, knows_of_held rfl, hmoves⟩
    · exact hsame rfl hact
  | analysing options job =>
    obtain ⟨rfl, rfl⟩ := Prod.mk.inj hact
    exact ⟨h, hknows, .refl db⟩
  | granting jobId requestKey =>
    simp only [AnalysisThread.advance] at hact
    split at hact <;> exact hsame rfl hact
  | granted jobId requestKey =>
    simp only [AnalysisThread.advance] at hact
    repeat' (first | exact hsame rfl hact | split at hact)
  | extending job requestKey =>
    obtain ⟨rfl, rfl⟩ := Prod.mk.inj hact
    refine commit_induction (P := fun db' => AnalysisInv env db' ∧ Knows env db' .idle ∧ Moves env db db')
      ⟨h, knows_of_held rfl, .refl db⟩ fun db' hdb => ?_
    obtain ⟨hinv, hmoves⟩ := h.extendBudget hdb
    exact ⟨hinv, knows_of_held rfl, hmoves⟩

/-- **Step lemma.** -/
theorem analysisAct_spec {analyzer : Analyzer} (h : AnalysisInv env db) {thread thread' : AnalysisThread}
    (hknows : Knows env db thread) {a : AnalysisAct}
    (hact : analysisAct env analyzer db thread a = some (db', thread')) :
    AnalysisInv env db' ∧ Knows env db' thread' ∧ Moves env db db' := by
  unfold analysisAct at hact
  split at hact
  · rename_i r createdAt
    obtain ⟨rfl, rfl⟩ := Prod.mk.inj (Option.some.inj hact)
    obtain ⟨hinv, hmoves⟩ := h.enqueue r createdAt
    exact ⟨hinv, knows_of_held rfl, hmoves⟩
  · obtain ⟨rfl, rfl⟩ := Prod.mk.inj (Option.some.inj hact)
    exact ⟨h, knows_of_held rfl, .refl db⟩
  · split at hact <;>
    · obtain ⟨rfl, rfl⟩ := Prod.mk.inj (Option.some.inj hact)
      exact ⟨h, knows_of_held rfl, .refl db⟩
  · rename_i options job now outcome rule
    obtain ⟨rfl, rfl⟩ := Prod.mk.inj (Option.some.inj hact)
    refine commit_induction (P := fun db' => AnalysisInv env db' ∧ Knows env db' .idle ∧ Moves env db db')
      ⟨h, knows_of_held rfl, .refl db⟩ fun db' hdb => ?_
    obtain ⟨hinv, hmoves⟩ := h.finish (hknows job rfl) hdb
    exact ⟨hinv, knows_of_held rfl, hmoves⟩
  · exact nomatch hact
  · exact nomatch hact
  · exact AnalysisThread.advance_spec h hknows (Option.some.inj hact)
  · obtain ⟨rfl, rfl⟩ := Prod.mk.inj (Option.some.inj hact)
    exact ⟨h, knows_of_held rfl, .refl db⟩
  · exact nomatch hact

/-- The processes on an empty store. -/
def analysisStart : World AnalysisDb AnalysisThread := .start {} .idle

/-- **Run lemma.** -/
theorem analysis_of_reachable {analyzer : Analyzer} {w : World AnalysisDb AnalysisThread}
    (h : Run.Reachable (World.step (analysisAct env analyzer)) analysisStart w) :
    AnalysisInv env w.store ∧ ∀ i, Knows env w.store (w.locals i) :=
  World.invariant h ⟨analysisInv_empty, fun _ => knows_of_held rfl⟩
    (fun _ _ _ _ _ hinv hknows hact => analysisAct_spec hinv hknows hact)
    fun _ _ _ _ hknows hmoves job hjob => (hknows job hjob).moves hmoves

/-! ## Stale leases -/

/-- A process whose lease is no longer the one of its job leaves the store as it is. -/
theorem analysisAct_stale {analyzer : Analyzer} {thread thread' : AnalysisThread} {a : AnalysisAct}
    {job : AnalysisJob} (hheld : thread.held = some job)
    (hstale : ∀ j ∈ db.jobs, j.id = job.id → j.leaseToken ≠ job.leaseToken)
    (hact : analysisAct env analyzer db thread a = some (db', thread')) : db' = db := by
  have hnone : ∀ p : AnalysisJob → Bool, (∀ j ∈ db.jobs, p j = true →
      j.id = job.id ∧ j.leaseToken = job.leaseToken) → db.jobs.any p = false := by
    intro p hp
    rw [List.any_eq_false]
    exact fun j hj hpj => hstale j hj (hp j hj hpj).1 (hp j hj hpj).2
  cases thread with
  | recovering now options expired =>
    obtain rfl := Option.some.inj hheld
    cases a with
    | advance =>
      have hany := hnone (stillExpired now expired) fun j _ hp => by
        simp only [stillExpired, Bool.and_eq_true, decide_eq_true_eq] at hp
        exact ⟨hp.1.1.1, hp.1.2⟩
      simp only [analysisAct, AnalysisThread.advance, CrmControl.recoverExpired, hany,
        Bool.false_eq_true, if_false, Option.some.injEq, Prod.mk.injEq] at hact
      exact hact.1.symm
    | crash => exact (Prod.mk.inj (Option.some.inj hact)).1.symm
    | _ => exact nomatch hact
  | analysing options read =>
    obtain rfl := Option.some.inj hheld
    cases a with
    | finish now outcome rule =>
      have hany := hnone (holdsJob now read) fun j _ hp => by
        simp only [holdsJob, Bool.and_eq_true, decide_eq_true_eq] at hp
        exact ⟨hp.1.1.1.1.1, hp.1.1.2⟩
      simp only [analysisAct, CrmControl.finish, hany, Bool.false_eq_true, if_false, commit,
        Option.some.injEq, Prod.mk.injEq] at hact
      exact hact.1.symm
    | crash => exact (Prod.mk.inj (Option.some.inj hact)).1.symm
    | _ => exact nomatch hact
  | _ => exact nomatch hheld

/-! ## The budget -/

/-- The step extends the budget of the job for the request. -/
def Extends (env : Env) (analyzer : Analyzer) (w w' : World AnalysisDb AnalysisThread)
    (jobId requestKey : String) : Prop :=
  ∃ i a job, World.step (analysisAct env analyzer) w (i, a) = some w' ∧
    w.locals i = .extending job requestKey ∧ job.id = jobId ∧
    ∃ j ∈ w.store.jobs, ∃ j' ∈ w'.store.jobs, j.id = jobId ∧ j'.id = jobId ∧
      j'.attemptLimit ≠ j.attemptLimit

/-- The jobs keep their budgets. -/
def KeepsLimits (db db' : AnalysisDb) : Prop :=
  ∀ j ∈ db.jobs, ∀ j' ∈ db'.jobs, j'.id = j.id → j'.attemptLimit = j.attemptLimit

theorem AnalysisInv.keepsLimits (h : AnalysisInv env db) : KeepsLimits db db := fun _ hj _ hj' hid => by
  rw [h.eq_of_id hj' hj hid]

theorem AnalysisInv.keepsLimits_update (h : AnalysisInv env db) {p : AnalysisJob → Bool}
    {f : AnalysisJob → AnalysisJob} (hid : ∀ j, (f j).id = j.id)
    (hlimit : ∀ j, (f j).attemptLimit = j.attemptLimit)
    (hjobs : db'.jobs = Table.updateWhere p f db.jobs) : KeepsLimits db db' := by
  intro j hj j' hj' hsame
  rw [hjobs] at hj'
  obtain ⟨j₀, hj₀, rfl⟩ := Table.mem_updateWhere.1 hj'
  split_ifs at hsame ⊢
  · rw [hid] at hsame
    rw [hlimit, h.eq_of_id hj₀ hj hsame]
  · rw [h.eq_of_id hj₀ hj hsame]

/-- A transaction that releases a job keeps the budgets. -/
theorem AnalysisInv.keepsLimits_release (h : AnalysisInv env db) {p : AnalysisJob → Bool}
    {f : AnalysisJob → AnalysisJob} {job : AnalysisJob} (hf : Releases job f) {row : Attempt}
    (hdb : (db.updateJobs p f).insertAttempt row = .ok db') : KeepsLimits db db' := by
  obtain rfl := insertAttempt_ok hdb
  exact h.keepsLimits_update hf.id (fun j => (hf.count j).2) rfl

theorem AnalysisThread.advance_keepsLimits (h : AnalysisInv env db) {thread thread' : AnalysisThread}
    (hthread : ∀ job requestKey, thread ≠ .extending job requestKey)
    (hact : thread.advance env db = (db', thread')) : KeepsLimits db db' := by
  have hsame : ∀ {next : AnalysisThread}, (db, next) = (db', thread') → KeepsLimits db db' := by
    rintro next heq
    obtain ⟨rfl, rfl⟩ := Prod.mk.inj heq
    exact h.keepsLimits
  cases thread with
  | recovering now options expired =>
    simp only [AnalysisThread.advance] at hact
    split at hact
    · rename_i db₁ hrecover
      obtain ⟨rfl, rfl⟩ := Prod.mk.inj hact
      unfold CrmControl.recoverExpired at hrecover
      split at hrecover
      · exact h.keepsLimits_release (releases_expire now expired) hrecover
      · exact Except.ok.inj hrecover ▸ h.keepsLimits
    · exact hsame hact
  | retiring now options ids =>
    obtain ⟨rfl, rfl⟩ := Prod.mk.inj hact
    exact h.keepsLimits_update (f := (·.retire now)) (fun _ => rfl) (fun _ => rfl) rfl
  | claiming now options candidate =>
    have hclaim : ∀ {claimed : Option AnalysisJob} {db₁ : AnalysisDb},
        claim env now candidate db = .ok (db₁, claimed) → KeepsLimits db db₁ := by
      intro claimed db₁ hclaim
      unfold CrmControl.claim at hclaim
      split at hclaim
      · dsimp only at hclaim
        split at hclaim
        · exact nomatch hclaim
        · obtain ⟨rfl, -⟩ := Prod.mk.inj (Except.ok.inj hclaim)
          exact h.keepsLimits_update (f := (·.claim now (env.uuid db.drawn))) (fun _ => rfl) (fun _ => rfl) rfl
      · exact (Prod.mk.inj (Except.ok.inj hclaim)).1 ▸ h.keepsLimits
    simp only [AnalysisThread.advance] at hact
    split at hact
    · rename_i hok
      exact (Prod.mk.inj hact).1 ▸ hclaim hok
    · rename_i hok
      exact (Prod.mk.inj hact).1 ▸ hclaim hok
    · exact hsame hact
  | extending job requestKey => exact absurd rfl (hthread job requestKey)
  | _ =>
    simp only [AnalysisThread.advance] at hact
    repeat' (first | exact hsame hact | split at hact)

/-- Only `retryTransientError` changes a budget. -/
theorem analysisAct_keepsLimits {analyzer : Analyzer} (h : AnalysisInv env db)
    {thread thread' : AnalysisThread} {a : AnalysisAct}
    (hthread : ∀ job requestKey, thread ≠ .extending job requestKey)
    (hact : analysisAct env analyzer db thread a = some (db', thread')) : KeepsLimits db db' := by
  unfold analysisAct at hact
  split at hact
  · rename_i r createdAt
    obtain ⟨rfl, rfl⟩ := Prod.mk.inj (Option.some.inj hact)
    intro j hj j' hj' hid
    unfold AnalysisDb.enqueue at hj'
    split at hj'
    · exact h.keepsLimits j hj j' hj' hid
    · rcases List.mem_append.1 hj' with hj' | hj'
      · exact h.keepsLimits j hj j' hj' hid
      · rw [List.mem_singleton.1 hj'] at hid
        exact absurd hid.symm (h.ok j hj).drawn.ne
  · obtain ⟨rfl, rfl⟩ := Prod.mk.inj (Option.some.inj hact)
    exact h.keepsLimits
  · split at hact <;> exact (Prod.mk.inj (Option.some.inj hact)).1 ▸ h.keepsLimits
  · rename_i options job now outcome rule
    obtain ⟨rfl, rfl⟩ := Prod.mk.inj (Option.some.inj hact)
    refine commit_induction h.keepsLimits fun db' hdb => ?_
    unfold CrmControl.finish at hdb
    split at hdb
    · exact h.keepsLimits_release (releases_finish analyzer now _ job _ rule) hdb
    · exact Except.ok.inj hdb ▸ h.keepsLimits
  · exact nomatch hact
  · exact nomatch hact
  · exact AnalysisThread.advance_keepsLimits h hthread (Option.some.inj hact)
  · obtain ⟨rfl, rfl⟩ := Prod.mk.inj (Option.some.inj hact)
    exact h.keepsLimits
  · exact nomatch hact

/-- A request does not touch the budgets of other jobs. -/
theorem AnalysisInv.extendBudget_other (h : AnalysisInv env db) {job j j' : AnalysisJob}
    {requestKey : String} (hj : j ∈ db.jobs)
    (hj' : j' ∈ (commit db (CrmControl.extendBudget env job requestKey db)).jobs) (hid : j'.id = j.id)
    (hother : job.id ≠ j.id) : j'.attemptLimit = j.attemptLimit := by
  cases hdb : CrmControl.extendBudget env job requestKey db with
  | error e =>
    rw [hdb] at hj'
    exact h.keepsLimits j hj j' hj' hid
  | ok db' =>
    rw [hdb] at hj'
    unfold CrmControl.extendBudget at hdb
    split at hdb
    · obtain ⟨rfl, -⟩ := insertGrant_ok hdb
      obtain ⟨j₀, hj₀, rfl⟩ := Table.mem_updateWhere.1 hj'
      split_ifs at hid ⊢ with hsel
      · exact absurd ((of_decide_eq_true hsel).1.symm.trans hid) hother
      · rw [h.eq_of_id hj₀ hj hid]
    · obtain rfl := Except.ok.inj hdb
      exact h.keepsLimits j hj j' hj' hid

/-- A step that changes the limit of a job is the write of a retry of this job. -/
theorem analysisAct_changes {analyzer : Analyzer} (h : AnalysisInv env db)
    {thread thread' : AnalysisThread} {a : AnalysisAct}
    (hact : analysisAct env analyzer db thread a = some (db', thread')) {j j' : AnalysisJob}
    (hj : j ∈ db.jobs) (hj' : j' ∈ db'.jobs) (hid : j'.id = j.id)
    (hne : j'.attemptLimit ≠ j.attemptLimit) :
    ∃ job requestKey, thread = .extending job requestKey ∧ job.id = j.id := by
  by_cases hextending : ∃ job requestKey, thread = .extending job requestKey
  · obtain ⟨job, requestKey, rfl⟩ := hextending
    refine ⟨job, requestKey, rfl, ?_⟩
    by_contra hother
    cases a with
    | advance =>
      obtain ⟨rfl, -⟩ := Prod.mk.inj (Option.some.inj hact)
      exact hne (h.extendBudget_other hj hj' hid hother)
    | crash =>
      obtain ⟨rfl, -⟩ := Prod.mk.inj (Option.some.inj hact)
      exact hne (h.keepsLimits j hj j' hj' hid)
    | _ => exact nomatch hact
  · refine absurd (analysisAct_keepsLimits h (fun job requestKey heq => ?_) hact j hj j' hj' hid) hne
    exact hextending ⟨job, requestKey, heq⟩

/-- The request was granted. -/
def Granted (db : AnalysisDb) (jobId requestKey : String) : Prop :=
  ∃ g ∈ db.grants, g.jobId = jobId ∧ g.requestKey = requestKey

/-- A granted request changes nothing: the unique index on the grants rolls its update back. -/
theorem extendBudget_granted {job : AnalysisJob} {requestKey : String}
    (h : Granted db job.id requestKey) : commit db (extendBudget env job requestKey db) = db := by
  refine commit_induction (P := (· = db)) rfl fun db' hdb => ?_
  unfold CrmControl.extendBudget at hdb
  split at hdb
  · obtain ⟨g, hg, hjob, hkey⟩ := h
    exact absurd hkey ((insertGrant_ok hdb).2 g hg hjob)
  · exact (Except.ok.inj hdb).symm

/-- A request that extends a budget is granted by that step and was not before. -/
theorem Extends.granted {analyzer : Analyzer} {w w' : World AnalysisDb AnalysisThread}
    {jobId requestKey : String} (hinv : AnalysisInv env w.store)
    (h : Extends env analyzer w w' jobId requestKey) :
    ¬ Granted w.store jobId requestKey ∧ Granted w'.store jobId requestKey := by
  obtain ⟨i, a, job, hstep, hlocal, rfl, j, hj, j', hj', hid, hid', hne⟩ := h
  obtain ⟨db', thread', hact, rfl⟩ := World.step_eq_some.1 hstep
  rw [hlocal] at hact
  have hchanged : db' ≠ w.store := by
    rintro rfl
    exact hne (hinv.keepsLimits j hj j' hj' (hid'.trans hid.symm))
  cases a with
  | advance =>
    obtain ⟨hdb, -⟩ := Prod.mk.inj (Option.some.inj hact)
    refine ⟨fun hgranted => hchanged (hdb.symm.trans (extendBudget_granted hgranted)), ?_⟩
    cases hextend : extendBudget env job requestKey w.store with
    | error e =>
      rw [hextend] at hdb
      exact absurd hdb.symm hchanged
    | ok db₁ =>
      rw [hextend] at hdb
      obtain rfl : db₁ = db' := hdb
      unfold CrmControl.extendBudget at hextend
      split at hextend
      · obtain ⟨rfl, -⟩ := insertGrant_ok hextend
        exact ⟨_, List.mem_append_right _ (List.mem_singleton_self _), rfl, rfl⟩
      · exact absurd (Except.ok.inj hextend).symm hchanged
  | crash => exact absurd (Prod.mk.inj (Option.some.inj hact)).1.symm hchanged
  | _ => exact nomatch hact

/-- A grant is never taken back. -/
theorem Granted.stable {analyzer : Analyzer} {w w' : World AnalysisDb AnalysisThread}
    (hreach : Run.Reachable (World.step (analysisAct env analyzer)) analysisStart w)
    (h : Run.Reachable (World.step (analysisAct env analyzer)) w w') {jobId requestKey : String}
    (hgranted : Granted w.store jobId requestKey) : Granted w'.store jobId requestKey := by
  have hall : (AnalysisInv env w'.store ∧ Granted w'.store jobId requestKey) ∧
      ∀ i, Knows env w'.store (w'.locals i) := by
    refine World.invariant (I := fun db => AnalysisInv env db ∧ Granted db jobId requestKey)
      (R := Moves env) h ⟨⟨(analysis_of_reachable hreach).1, hgranted⟩, (analysis_of_reachable hreach).2⟩ ?_
      fun _ _ _ _ hknows hmoves job hjob => (hknows job hjob).moves hmoves
    rintro db thread a db' thread' ⟨hinv, g, hg, hkeys⟩ hknows hact
    obtain ⟨hinv', hknows', hmoves⟩ := analysisAct_spec hinv hknows hact
    exact ⟨⟨hinv', g, hmoves.grants g hg, hkeys⟩, hknows', hmoves⟩
  exact hall.1.2

/-! ## The theorem -/

/-- What holds of the analysis jobs in a state. -/
structure AnalysisSafe (env : Env) (analyzer : Analyzer) (w : World AnalysisDb AnalysisThread) : Prop where
  /-- A job runs exactly while it has an active key, and exactly while it has a lease. -/
  running : ∀ j ∈ w.store.jobs, (j.status = .running ↔ j.activeKey ≠ none) ∧
    (j.activeKey ≠ none ↔ j.leaseToken ≠ none)
  single : ∀ j ∈ w.store.jobs, ∀ j' ∈ w.store.jobs, j.status = .running → j'.status = .running → j = j'
  budget : ∀ j ∈ w.store.jobs, j.attemptCount ≤ j.attemptLimit ∧
    (j.status = .queued → j.attemptCount < j.attemptLimit)
  /-- The attempts of a job have different numbers. -/
  distinct : ∀ j ∈ w.store.jobs, ((w.store.attempts.filter (·.jobId = j.id)).map (·.attemptNo)).Nodup
  numbered : ∀ j ∈ w.store.jobs, ∀ a ∈ w.store.attempts, a.jobId = j.id →
    1 ≤ a.attemptNo ∧ a.attemptNo ≤ j.attemptCount
  /-- A process whose lease is no longer the one of its job changes nothing. -/
  stale : ∀ i a w' job, World.step (analysisAct env analyzer) w (i, a) = some w' →
    (w.locals i).held = some job →
    (∀ j ∈ w.store.jobs, j.id = job.id → j.leaseToken ≠ job.leaseToken) → w'.store = w.store
  /-- Only a manual retry changes the limit of a job. -/
  limit : ∀ i a w', World.step (analysisAct env analyzer) w (i, a) = some w' →
    ∀ j ∈ w.store.jobs, ∀ j' ∈ w'.store.jobs, j'.id = j.id → j'.attemptLimit ≠ j.attemptLimit →
      ∃ requestKey, Extends env analyzer w w' j.id requestKey
  /-- Once a request has extended the budget of a job, it never does so again. -/
  once : ∀ jobId requestKey w₁ w₂ w₃, Extends env analyzer w w₁ jobId requestKey →
    Run.Reachable (World.step (analysisAct env analyzer)) w₁ w₂ →
    ¬ Extends env analyzer w₂ w₃ jobId requestKey

/-- **Analysis jobs.** Every state that any number of processes reach from an empty store is safe. -/
theorem analysis_jobs {analyzer : Analyzer} {w : World AnalysisDb AnalysisThread}
    (hreach : Run.Reachable (World.step (analysisAct env analyzer)) analysisStart w) :
    AnalysisSafe env analyzer w := by
  obtain ⟨hinv, hknows⟩ := analysis_of_reachable hreach
  refine ⟨fun j hj => ?_, hinv.single, fun j hj => ⟨(hinv.ok j hj).budget, (hinv.ok j hj).queued⟩,
    fun j hj => ?_, fun j hj => (hinv.ok j hj).recorded, fun i a w' job hstep hheld hstale => ?_,
    fun i a w' hstep j hj j' hj' hid hne => ?_, fun jobId requestKey w₁ w₂ w₃ h₁ h₂ h₃ => ?_⟩
  · have hok := hinv.ok j hj
    by_cases hr : j.status = .running
    · obtain ⟨hkey, t, ht, -⟩ := hok.running hr
      simp [hr, hkey, ht]
    · obtain ⟨hkey, hlease⟩ := hok.idle hr
      simp [hr, hkey, hlease]
  · refine List.Nodup.of_map (fun n => (j.id, n)) ?_
    have hsub := hinv.attempt_nos.sublist
      ((List.filter_sublist (p := fun a => decide (a.jobId = j.id)) (l := w.store.attempts)).map _)
    rw [List.map_map]
    refine (List.map_congr_left fun a ha => ?_) ▸ hsub
    have hjob : a.jobId = j.id := by simpa using (List.mem_filter.1 ha).2
    simp [hjob]
  · obtain ⟨db', thread', hact, rfl⟩ := World.step_eq_some.1 hstep
    exact analysisAct_stale hheld hstale hact
  · obtain ⟨db', thread', hact, rfl⟩ := World.step_eq_some.1 hstep
    obtain ⟨job, requestKey, hlocal, hjob⟩ := analysisAct_changes hinv hact hj hj' hid hne
    exact ⟨requestKey, i, a, job, hstep, hlocal, hjob, j, hj, j', hj', rfl, hid, hne⟩
  · obtain ⟨i, a, job, hstep, -⟩ := id h₁
    have hreach₁ : Run.Reachable (World.step (analysisAct env analyzer)) analysisStart w₁ :=
      hreach.trans (.single trivial hstep)
    have hgranted := Granted.stable hreach₁ h₂ (h₁.granted hinv).2
    exact (h₃.granted (analysis_of_reachable (hreach₁.trans h₂)).1).1 hgranted

namespace Sample

/-- An analyzer that accepts every response and finds a violation. -/
def analyzer : Analyzer where
  validate _ response := ⟨.validated, response⟩
  assess _ _ _ := ⟨.fail, "Нарушение подтверждено.", policyVersion⟩

def localModel : AnalysisOptions := ⟨"model", "sha"⟩

/-- Process 0 takes a job and stalls; process 1 recovers it after its lease, takes it again and
finishes; then process 0 answers. -/
def takeover : List (ℕ × AnalysisAct) :=
  [(0, .enqueue ⟨"result", "snapshot", "input", .null, localModel⟩ 0),
    (0, .processQueue 1000 localModel), (0, .advance), (0, .advance), (0, .advance), (0, .advance),
    (1, .processQueue 400_000 localModel), (1, .advance), (1, .advance), (1, .advance), (1, .advance),
    (1, .advance), (1, .finish 401_000 (.ready "input" "model" "sha" "5" .null) (some "task_text")),
    (0, .finish 402_000 (.error "LOCAL_AI_TIMEOUT" true) none)]

theorem takeover_runs :
    (Run.run (World.step (analysisAct environment analyzer)) analysisStart takeover).isSome = true := by
  decide +kernel

def afterTakeover : World AnalysisDb AnalysisThread :=
  (Run.run (World.step (analysisAct environment analyzer)) analysisStart takeover).get takeover_runs

end Sample

theorem analysis_jobs_sample :
    AnalysisSafe Sample.environment Sample.analyzer Sample.afterTakeover :=
  analysis_jobs (Run.reachable_of_run (Option.some_get Sample.takeover_runs).symm)

end AmoAnalytics.CrmControl
