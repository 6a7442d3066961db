import AmoAnalytics.Workspaces.RivileSales

/-!
# The lease of a Rivile refresh

A run id is drawn once, so the row of a month names at most one run, and the other workers cannot write
under it. What a statement can do is said once (`StepBy`), with the runs of the others left as they are;
the documents move in one statement only, under the lease.
-/

namespace AmoAnalytics.Workspaces

variable {db db' : RivileDb} {thread thread' : RivileThread} {action : RivileAction} {month : String}

/-! ## Rows -/

/-- The cutoff of a row: the time from which on requests are not served. -/
def RivileSnapshot.covers (time : ℤ) (row : RivileSnapshot) : Prop := ∃ cutoffAt, row.cutoffAt = some cutoffAt ∧ time ≤ cutoffAt

/-- No row is lost and no cutoff decreases. -/
def CutoffLe (db db' : RivileDb) : Prop := ∀ month row, db.rows month = some row →
  ∃ row', db'.rows month = some row' ∧ ∀ time, row.covers time → row'.covers time

theorem CutoffLe.refl (db : RivileDb) : CutoffLe db db := fun _ row hrow => ⟨row, hrow, fun _ h => h⟩

theorem CutoffLe.trans {db₁ db₂ db₃ : RivileDb} (h₁ : CutoffLe db₁ db₂) (h₂ : CutoffLe db₂ db₃) :
    CutoffLe db₁ db₃ := by
  intro month row hrow
  obtain ⟨row₂, hrow₂, hle⟩ := h₁ month row hrow
  obtain ⟨row₃, hrow₃, hle'⟩ := h₂ month row₂ hrow₂
  exact ⟨row₃, hrow₃, fun time h => hle' time (hle time h)⟩

theorem RivileDb.updateMany_rows {p : RivileSnapshot → Bool} {f : RivileSnapshot → RivileSnapshot}
    {m : String} {row' : RivileSnapshot} (h : (db.updateMany month p f).rows m = some row') :
    db.rows m = some row' ∨ m = month ∧ ∃ row, db.rows m = some row ∧ p row = true ∧ row' = f row := by
  unfold RivileDb.updateMany at h
  dsimp only at h
  split_ifs at h with hm
  · obtain ⟨row, hrow, rfl⟩ := Option.map_eq_some_iff.1 h
    by_cases hp : p row = true
    · rw [if_pos hp]
      exact Or.inr ⟨hm, row, hm ▸ hrow, hp, rfl⟩
    · rw [if_neg hp]
      exact Or.inl (hm ▸ hrow)
  · exact Or.inl h

/-- A row after an update of the month. -/
theorem RivileDb.rows_updateMany {p : RivileSnapshot → Bool} {f : RivileSnapshot → RivileSnapshot}
    {m : String} {row : RivileSnapshot} (h : db.rows m = some row) :
    (db.updateMany month p f).rows m = some (if m = month ∧ p row = true then f row else row) := by
  unfold RivileDb.updateMany
  dsimp only
  by_cases hm : m = month
  · rw [if_pos hm, ← hm, h, Option.map_some]
    simp only [true_and]
  · rw [if_neg hm, if_neg fun hboth => hm hboth.1, h]

theorem RivileDb.updateMany_of_none {p : RivileSnapshot → Bool} {f : RivileSnapshot → RivileSnapshot}
    (h : ∀ row, db.rows month = some row → p row = false) : (db.updateMany month p f).rows = db.rows := by
  funext m
  unfold RivileDb.updateMany
  dsimp only
  split_ifs with hm
  · rw [hm]
    cases hrow : db.rows month with
    | none => rfl
    | some row => simp [h row hrow]
  · rfl

/-! ## What a statement can do -/

/-- The run of a refresh in progress. -/
def RivileThread.run : RivileThread → Option RivileRun
  | .starting run | .claiming run | .loading run | .publishing run _ | .clearing run | .failing run => some run
  | _ => none

/-- The run under a lease that was taken and not given back. -/
def RivileThread.leased : RivileThread → Option RivileRun
  | .loading run | .publishing run _ | .failing run => some run
  | _ => none

/-- What a worker with the run id `own` does to the rows: the rows of the other runs are as before, and
the documents move only under its own. -/
structure StepBy (own : Option ℕ) (db db' : RivileDb) : Prop where
  drawn : db.drawn ≤ db'.drawn
  cutoff : CutoffLe db db'
  others : ∀ m row' r, db'.rows m = some row' → row'.runId = some r → some r ≠ own →
    ∃ row, db.rows m = some row ∧ row.runId = some r ∧ row.cutoffAt = row'.cutoffAt

theorem StepBy.of_rows {own : Option ℕ} (hrows : db'.rows = db.rows) (hdrawn : db.drawn ≤ db'.drawn) :
    StepBy own db db' :=
  ⟨hdrawn, fun _ row hrow => ⟨row, hrows ▸ hrow, fun _ h => h⟩,
    fun _ row' _ hrow hrun _ => ⟨row', hrows ▸ hrow, hrun, rfl⟩⟩

/-- An update of the month that gives the row to nobody else and takes no cutoff back. -/
theorem StepBy.update {own : Option ℕ} {p : RivileSnapshot → Bool} {f : RivileSnapshot → RivileSnapshot}
    (hcovers : ∀ row, db.rows month = some row → p row = true → ∀ time, row.covers time → (f row).covers time)
    (hrun : ∀ row, p row = true → (f row).runId = own ∨ (f row).runId = none ∨
      (f row).runId = row.runId ∧ (f row).cutoffAt = row.cutoffAt) :
    StepBy own db (db.updateMany month p f) := by
  refine ⟨le_rfl, fun m row hrow => ⟨_, RivileDb.rows_updateMany hrow, fun time htime => ?_⟩,
    fun m row' r hrow hr hown => ?_⟩
  · split_ifs with hupdated
    · exact hcovers row (hupdated.1 ▸ hrow) hupdated.2 time htime
    · exact htime
  · rcases RivileDb.updateMany_rows hrow with hold | ⟨-, row, hold, hp, rfl⟩
    · exact ⟨row', hold, hr, rfl⟩
    · rcases hrun row hp with hown' | hnone | hsame
      · exact absurd (hr.symm.trans hown') hown
      · rw [hnone] at hr
        cases hr
      · exact ⟨row, hold, hsame.1 ▸ hr, hsame.2.symm⟩

/-- An upsert that touches no lease and no cutoff. -/
theorem StepBy.upsert {own : Option ℕ} {create : RivileSnapshot} {f : RivileSnapshot → RivileSnapshot}
    (hcreate : create.runId = none) (hrun : ∀ row, (f row).runId = row.runId)
    (hcutoff : ∀ row, (f row).cutoffAt = row.cutoffAt) (hdb : db'.rows = (db.upsert month create f).rows)
    (hdrawn : db'.drawn = db.drawn) : StepBy own db db' := by
  have hrows : ∀ m, db'.rows m = if m = month then some ((db.rows m).elim create f) else db.rows m :=
    fun m => congrFun hdb m
  refine ⟨hdrawn.ge, fun m row hrow => ?_, fun m row' r hrow hr hown => ?_⟩
  · rw [hrows, hrow]
    split_ifs
    · exact ⟨f row, rfl, fun time ⟨c, hc, hle⟩ => ⟨c, (hcutoff row).trans hc, hle⟩⟩
    · exact ⟨row, rfl, fun _ h => h⟩
  · rw [hrows] at hrow
    split_ifs at hrow
    · cases hold : db.rows m with
      | none =>
        rw [hold] at hrow
        obtain rfl := Option.some.inj hrow
        rw [Option.elim_none, hcreate] at hr
        cases hr
      | some row =>
        rw [hold] at hrow
        obtain rfl := Option.some.inj hrow
        exact ⟨row, rfl, hrun row ▸ hr, (hcutoff row).symm⟩
    · exact ⟨row', hrow, hr, rfl⟩

/-- A statement of a worker, where a publication takes no cutoff back. -/
theorem stepBy_of_act (h : rivileAct db thread action = some (db', thread'))
    (hpublish : ∀ run loaded, thread = .publishing run loaded → action = .publish →
      ∀ row, db.rows run.month = some row → row.heldBy run.runId = true →
        ∀ time, row.covers time → time ≤ run.startedAt) :
    StepBy (thread.run.map (·.runId)) db db' := by
  unfold rivileAct at h
  split at h
  case h_2 =>
    split_ifs at h
    cases h
    exact .of_rows rfl le_rfl
  case h_4 month requestedAt =>
    cases h
    exact .upsert (f := fun row => { row with requestedAt := some requestedAt, needsRefresh := true })
      rfl (fun _ => rfl) (fun _ => rfl) rfl rfl
  case h_5 =>
    cases h
    exact .of_rows rfl (Nat.le_succ _)
  case h_6 =>
    cases h
    exact .upsert rfl (fun _ => rfl) (fun _ => rfl) rfl rfl
  case h_7 run =>
    split_ifs at h
    · cases h
      exact .update (fun _ _ _ _ htime => htime) fun _ _ => Or.inl rfl
    · cases h
      exact .of_rows rfl le_rfl
  case h_10 run loaded =>
    split_ifs at h
    · cases h
      refine .update (fun row hrow hheld time htime => ?_) fun _ _ => Or.inr (Or.inl rfl)
      exact ⟨run.startedAt, rfl, hpublish run loaded rfl rfl row hrow hheld time htime⟩
    · cases h
      exact .of_rows rfl le_rfl
  case h_11 =>
    cases h
    exact .update (fun _ _ _ _ htime => htime) fun _ _ => Or.inr (Or.inr ⟨rfl, rfl⟩)
  case h_12 =>
    cases h
    exact .update (fun _ _ _ _ htime => htime) fun _ _ => Or.inr (Or.inl rfl)
  case h_13 => cases h
  all_goals
    cases h
    exact .of_rows rfl le_rfl

/-! ## Runs in progress -/

/-- What holds of a run in progress: nobody else holds its id, and the cutoff under its lease is the one
that it found when it took the lease. -/
def ThreadOk (db : RivileDb) : RivileThread → Prop
  | .starting run | .claiming run =>
    run.runId < db.drawn ∧ ∀ m row, db.rows m = some row → row.runId ≠ some run.runId
  | .loading run | .publishing run _ | .failing run =>
    run.runId < db.drawn ∧
      ∀ row, db.rows run.month = some row → row.runId = some run.runId → row.cutoffAt = run.taken
  | .clearing run =>
    run.runId < db.drawn ∧ ∃ row, db.rows run.month = some row ∧ row.covers run.startedAt
  | _ => True

theorem ThreadOk.drawn (h : ThreadOk db thread) {run : RivileRun} (hrun : thread.run = some run) :
    run.runId < db.drawn := by
  cases thread <;> cases hrun <;> exact h.1

/-- A statement of a worker leaves the runs of the others as they are. -/
theorem ThreadOk.other {own : Option ℕ} (h : ThreadOk db thread) (hstep : StepBy own db db')
    (hown : ∀ run, thread.run = some run → some run.runId ≠ own) : ThreadOk db' thread := by
  have hdrawn : ∀ {n}, n < db.drawn → n < db'.drawn := fun hn => hn.trans_le hstep.drawn
  cases thread with
  | idle | requesting => trivial
  | starting run | claiming run =>
    refine ⟨hdrawn h.1, fun m row' hrow hr => ?_⟩
    obtain ⟨row, hold, hr', -⟩ := hstep.others m row' _ hrow hr (hown _ rfl)
    exact h.2 m row hold hr'
  | loading run | publishing run _ | failing run =>
    refine ⟨hdrawn h.1, fun row' hrow hr => ?_⟩
    obtain ⟨row, hold, hr', hcutoff⟩ := hstep.others _ row' _ hrow hr (hown _ rfl)
    exact hcutoff.symm.trans (h.2 row hold hr')
  | clearing run =>
    obtain ⟨row, hold, hcovers⟩ := h.2
    obtain ⟨row', hrow, hle⟩ := hstep.cutoff _ row hold
    exact ⟨hdrawn h.1, row', hrow, hle _ hcovers⟩

/-- A run goes on with its id, or begins with a new one. -/
theorem run_of_act (h : rivileAct db thread action = some (db', thread')) {run' : RivileRun}
    (hrun' : thread'.run = some run') :
    (∃ run, thread.run = some run ∧ run.runId = run'.runId) ∨
      thread.run = none ∧ run'.runId = db.drawn := by
  unfold rivileAct at h
  split at h
  case h_5 =>
    cases h
    cases hrun'
    exact Or.inr ⟨rfl, rfl⟩
  case h_6 | h_9 =>
    cases h
    cases hrun'
    exact Or.inl ⟨_, rfl, rfl⟩
  case h_7 run =>
    split_ifs at h <;> cases h <;> cases hrun'
    exact Or.inl ⟨_, rfl, rfl⟩
  case h_8 run first second =>
    cases h
    split_ifs at hrun' <;> cases hrun' <;> exact Or.inl ⟨_, rfl, rfl⟩
  case h_10 run loaded =>
    split_ifs at h <;> cases h <;> cases hrun' <;> exact Or.inl ⟨_, rfl, rfl⟩
  case h_2 =>
    split_ifs at h
    cases h
    cases hrun'
  all_goals
    cases h
    first | done | cases hrun'

/-- The run ids in the rows were drawn. -/
def RowsOk (db : RivileDb) : Prop := ∀ m row r, db.rows m = some row → row.runId = some r → r < db.drawn

theorem RowsOk.step (h : RowsOk db) {own : Option ℕ} (hown : ∀ r, own = some r → r < db.drawn)
    (hstep : StepBy own db db') : RowsOk db' := by
  intro m row' r hrow hr
  by_cases hr' : some r = own
  · exact (hown r hr'.symm).trans_le hstep.drawn
  · obtain ⟨row, hold, hrun, -⟩ := hstep.others m row' r hrow hr hr'
    exact (h m row r hold hrun).trans_le hstep.drawn

/-- A publication under a lease that was taken with no later cutoff. -/
def PublishGuard : RivileThread → Prop
  | .publishing run _ => run.taken.all (· ≤ run.startedAt) = true
  | _ => True

theorem ThreadOk.covers_le (h : ThreadOk db thread) (hguard : PublishGuard thread) {run : RivileRun}
    {loaded : Loaded} (hthread : thread = .publishing run loaded) {row : RivileSnapshot}
    (hrow : db.rows run.month = some row) (hheld : row.heldBy run.runId = true) {time : ℤ}
    (htime : row.covers time) : time ≤ run.startedAt := by
  subst hthread
  obtain ⟨cutoffAt, hcutoff, hle⟩ := htime
  have htaken : run.taken = some cutoffAt := (h.2 row hrow (of_decide_eq_true hheld)).symm.trans hcutoff
  have hcut : cutoffAt ≤ run.startedAt := by
    rw [PublishGuard, htaken] at hguard
    exact of_decide_eq_true hguard
  exact hle.trans hcut

/-- The worker's own run after its statement. -/
theorem ThreadOk.own (h : ThreadOk db thread) (hrows : RowsOk db)
    (hact : rivileAct db thread action = some (db', thread')) : ThreadOk db' thread' := by
  unfold rivileAct at hact
  split at hact
  case h_2 =>
    split_ifs at hact
    cases hact
    trivial
  case h_5 =>
    cases hact
    exact ⟨Nat.lt_succ_self _, fun m row hrow hr => (hrows m row _ hrow hr).ne rfl⟩
  case h_6 run =>
    cases hact
    have hstep : StepBy none db (db.upsert run.month {} fun row => row) :=
      .upsert rfl (fun _ => rfl) (fun _ => rfl) rfl rfl
    refine ⟨h.1, fun m row' hrow hr => ?_⟩
    obtain ⟨row, hold, hr', -⟩ := hstep.others m row' _ hrow hr nofun
    exact h.2 m row hold hr'
  case h_7 run =>
    split_ifs at hact <;> cases hact
    · refine ⟨h.1, fun row' hrow hr => ?_⟩
      rcases RivileDb.updateMany_rows hrow with hold | ⟨-, row, hold, -, rfl⟩
      · exact absurd hr (h.2 _ row' hold)
      · change row.cutoffAt = (db.rows run.month).bind (·.cutoffAt)
        rw [hold]
        rfl
    · trivial
  case h_8 run first second =>
    cases hact
    split_ifs <;> exact h
  case h_9 =>
    cases hact
    exact h
  case h_10 run loaded =>
    split_ifs at hact with hheld <;> cases hact
    · obtain ⟨row, hrow, hheld⟩ := (Option.any_eq_true _ _).1 hheld
      refine ⟨h.1, _, RivileDb.rows_updateMany hrow, ?_⟩
      rw [if_pos ⟨rfl, hheld⟩]
      exact ⟨run.startedAt, rfl, le_rfl⟩
    · exact h
  case h_13 => cases hact
  all_goals
    cases hact
    trivial

/-! ## Requests -/

/-- Every request is pending or served by a refresh that started after it. -/
def RequestsOk (db : RivileDb) : Prop := ∀ month, ∀ time ∈ db.requests month,
  ∃ row, db.rows month = some row ∧ (row.needsRefresh = true ∨ row.covers time)

/-- The flag is cleared when no later request than the start waits under an earlier time, unless it is
served already. -/
def ClearGuard (db : RivileDb) : RivileThread → Prop
  | .clearing run => ∀ row, db.rows run.month = some row → row.served run.startedAt = true →
      ∀ time ∈ db.requests run.month, time ≤ run.startedAt ∨ row.covers time
  | _ => True

theorem RequestsOk.of_rows (h : RequestsOk db) (hrows : db'.rows = db.rows)
    (hrequests : db'.requests = db.requests) : RequestsOk db' := by
  intro month time htime
  rw [hrows]
  exact h month time (hrequests ▸ htime)

theorem RequestsOk.update (h : RequestsOk db) {p : RivileSnapshot → Bool} {f : RivileSnapshot → RivileSnapshot}
    (hkept : ∀ row, db.rows month = some row → p row = true → ∀ time ∈ db.requests month,
      row.needsRefresh = true ∨ row.covers time → (f row).needsRefresh = true ∨ (f row).covers time) :
    RequestsOk (db.updateMany month p f) := by
  intro m time htime
  obtain ⟨row, hrow, hok⟩ := h m time htime
  refine ⟨_, RivileDb.rows_updateMany hrow, ?_⟩
  split_ifs with hupdated
  · obtain ⟨rfl, hp⟩ := hupdated
    exact hkept row hrow hp time htime hok
  · exact hok

theorem RequestsOk.act (h : RequestsOk db) (hthread : ThreadOk db thread) 
    (hpublish : action = .publish → PublishGuard thread) (hclear : action = .clear → ClearGuard db thread)
    (hact : rivileAct db thread action = some (db', thread')) :
    RequestsOk db' := by
  unfold rivileAct at hact
  split at hact
  case h_2 =>
    split_ifs at hact
    cases hact
    exact h.of_rows rfl rfl
  case h_4 month requestedAt =>
    cases hact
    intro m time htime
    by_cases hm : m = month
    · subst hm
      refine ⟨_, if_pos rfl, Or.inl ?_⟩
      cases db.rows m <;> rfl
    · have hrow : ∀ {α : Type} (a b : α), (if m = month then a else b) = b := fun _ _ => if_neg hm
      obtain ⟨row, hold, hok⟩ := h m time (by simpa only [RivileDb.request, hrow] using htime)
      exact ⟨row, by simpa only [RivileDb.request, RivileDb.upsert, hrow] using hold, hok⟩
  case h_6 run =>
    cases hact
    intro m time htime
    obtain ⟨row, hold, hok⟩ := h m time htime
    refine ⟨row, ?_, hok⟩
    change (if m = run.month then _ else _) = _
    rw [hold]
    split_ifs <;> rfl
  case h_7 run =>
    split_ifs at hact <;> cases hact
    · exact h.update fun _ _ _ _ _ hok => hok
    · exact h.of_rows rfl rfl
  case h_10 run loaded =>
    split_ifs at hact <;> cases hact
    · refine h.update fun row hrow hheld time _ hok => hok.imp_right fun htime => ?_
      exact ⟨run.startedAt, rfl, hthread.covers_le (hpublish rfl) rfl hrow hheld htime⟩
    · exact h.of_rows rfl rfl
  case h_11 run =>
    cases hact
    refine h.update fun row hrow hserved time htime _ => Or.inr ?_
    rcases hclear rfl row hrow hserved time htime with hle | hcovers
    · -- The run has published, and nobody has taken its cutoff back.
      obtain ⟨row', hrow', cutoffAt, hcutoff, hstart⟩ := hthread.2
      obtain rfl := Option.some.inj (hrow.symm.trans hrow')
      exact ⟨cutoffAt, hcutoff, hle.trans hstart⟩
    · exact hcovers
  case h_12 =>
    cases hact
    exact h.update fun _ _ _ _ _ hok => hok
  case h_13 => cases hact
  all_goals
    cases hact
    exact h.of_rows rfl rfl

/-! ## Steps and runs -/

/-- A run publishes under a lease that was taken with no later cutoff, and clears the flag of no later
request that is not served. -/
def RivileGuard (w : World RivileDb RivileThread) (a : ℕ × RivileAction) : Prop :=
  (a.2 = .publish → PublishGuard (w.locals a.1)) ∧ (a.2 = .clear → ClearGuard w.store (w.locals a.1))

/-- The invariant of the worlds reached. -/
structure RivileInv (w : World RivileDb RivileThread) : Prop where
  rows : RowsOk w.store
  threads : ∀ i, ThreadOk w.store (w.locals i)
  distinct : ∀ i j, i ≠ j → ∀ run run', (w.locals i).run = some run → (w.locals j).run = some run' →
    run.runId ≠ run'.runId
  requests : RequestsOk w.store

variable {w w' : World RivileDb RivileThread} {a : ℕ × RivileAction}

theorem RivileInv.stepBy {i : ℕ} (h : RivileInv w) (hguard : RivileGuard w (i, action))
    (hact : rivileAct w.store (w.locals i) action = some (db', thread')) :
    StepBy ((w.locals i).run.map (·.runId)) w.store db' :=
  stepBy_of_act hact fun _ _ hthread hpublish _ hrow hheld _ htime =>
    (h.threads i).covers_le (hguard.1 hpublish) hthread hrow hheld htime

theorem RivileInv.step (h : RivileInv w) (hguard : RivileGuard w a)
    (hstep : World.step rivileAct w a = some w') : RivileInv w' ∧ CutoffLe w.store w'.store := by
  obtain ⟨i, action⟩ := a
  obtain ⟨db', thread', hact, rfl⟩ := World.step_eq_some.1 hstep
  have hby := h.stepBy hguard hact
  have hown : ∀ r, (w.locals i).run.map (·.runId) = some r → r < w.store.drawn := by
    intro r hr
    obtain ⟨run, hrun, rfl⟩ := Option.map_eq_some_iff.1 hr
    exact (h.threads i).drawn hrun
  have hothers : ∀ j, j ≠ i → ThreadOk db' (w.locals j) := by
    refine fun j hj => (h.threads j).other hby fun run hrun heq => ?_
    obtain ⟨run', hrun', hid⟩ := Option.map_eq_some_iff.1 heq.symm
    exact h.distinct j i hj run run' hrun hrun' hid.symm
  have hnew : ∀ j, j ≠ i → ∀ run run', thread'.run = some run → (w.locals j).run = some run' →
      run.runId ≠ run'.runId := by
    intro j hj run run' hrun hrun'
    rcases run_of_act hact hrun with ⟨old, hold, hid⟩ | ⟨-, hid⟩
    · rw [← hid]
      exact h.distinct i j hj.symm old run' hold hrun'
    · rw [hid]
      exact ((h.threads j).drawn hrun').ne'
  refine ⟨⟨h.rows.step hown hby, World.forall_update ((h.threads i).own h.rows hact) hothers, ?_, ?_⟩,
    hby.cutoff⟩
  · refine World.forall_update₂ (P := fun l l' : RivileThread => ∀ run run', l.run = some run →
      l'.run = some run' → run.runId ≠ run'.runId) ?_ hnew h.distinct
    exact fun l l' hl run run' hrun hrun' => (hl run' run hrun' hrun).symm
  · exact h.requests.act (h.threads i) hguard.1 hguard.2 hact

theorem rivileInv_start : RivileInv rivileStart :=
  ⟨fun _ _ _ hrow => (nomatch hrow), fun _ => trivial, fun _ _ _ _ _ hrun => (nomatch hrun),
    fun _ _ htime => absurd htime List.not_mem_nil⟩

/-- The run has lost its lease. -/
def Lost (db : RivileDb) (run : RivileRun) : Prop :=
  ∀ row, db.rows run.month = some row → row.heldBy run.runId = false

/-- A worker that has lost its lease writes nothing. -/
theorem rows_of_lost {run : RivileRun} (hleased : thread.leased = some run) (hlost : Lost db run)
    (h : rivileAct db thread action = some (db', thread')) : db'.rows = db.rows := by
  unfold rivileAct at h
  split at h
  case h_10 =>
    cases hleased
    split_ifs at h with hheld
    · obtain ⟨row, hrow, hheld⟩ := (Option.any_eq_true _ _).1 hheld
      exact absurd hheld (Bool.eq_false_iff.1 (hlost row hrow))
    · cases h
      rfl
  case h_12 =>
    cases hleased
    cases h
    exact RivileDb.updateMany_of_none hlost
  case h_1 | h_8 | h_9 =>
    cases h
    rfl
  case h_13 => cases h
  all_goals cases hleased

/-- A lease that is lost is not found again. -/
theorem Lost.step {run : RivileRun} {i : ℕ} (h : RivileInv w) (hguard : RivileGuard w a)
    (hleased : (w.locals i).leased = some run) (hlost : Lost w.store run)
    (hstep : World.step rivileAct w a = some w') : Lost w'.store run := by
  obtain ⟨j, action⟩ := a
  obtain ⟨db', thread', hact, rfl⟩ := World.step_eq_some.1 hstep
  have hrun : (w.locals i).run = some run := by
    cases hthread : w.locals i <;> rw [hthread] at hleased <;> cases hleased <;> rfl
  by_cases hj : j = i
  · subst hj
    rw [Lost, rows_of_lost hleased hlost hact]
    exact hlost
  · intro row' hrow
    by_contra hheld
    rw [Bool.not_eq_false] at hheld
    obtain ⟨row, hold, hr, -⟩ := (h.stepBy hguard hact).others run.month row' run.runId hrow
      (of_decide_eq_true hheld) fun heq => by
        obtain ⟨run', hrun', hid⟩ := Option.map_eq_some_iff.1 heq.symm
        exact h.distinct j i hj run' run hrun' hrun hid
    exact absurd (decide_eq_true hr) (Bool.eq_false_iff.1 (hlost row hold))

/-- The documents and the cutoff of every month are as they were. -/
def SameDocuments (db db' : RivileDb) : Prop := ∀ m row, db.rows m = some row →
  ∃ row', db'.rows m = some row' ∧ row'.documents = row.documents ∧ row'.cutoffAt = row.cutoffAt

theorem SameDocuments.update {p : RivileSnapshot → Bool} {f : RivileSnapshot → RivileSnapshot}
    (hdocuments : ∀ row, (f row).documents = row.documents) (hcutoff : ∀ row, (f row).cutoffAt = row.cutoffAt) :
    SameDocuments db (db.updateMany month p f) := by
  intro m row hrow
  refine ⟨_, RivileDb.rows_updateMany hrow, ?_⟩
  split_ifs
  · exact ⟨hdocuments row, hcutoff row⟩
  · exact ⟨rfl, rfl⟩

theorem SameDocuments.of_rows (hrows : db'.rows = db.rows) : SameDocuments db db' :=
  fun _ row hrow => ⟨row, hrows ▸ hrow, rfl, rfl⟩

theorem SameDocuments.upsert {create : RivileSnapshot} {f : RivileSnapshot → RivileSnapshot}
    (hdocuments : ∀ row, (f row).documents = row.documents) (hcutoff : ∀ row, (f row).cutoffAt = row.cutoffAt)
    (hdb : db'.rows = (db.upsert month create f).rows) : SameDocuments db db' := by
  intro m row hrow
  have hrows : db'.rows m = if m = month then some ((db.rows m).elim create f) else db.rows m := congrFun hdb m
  rw [hrows, hrow]
  split_ifs
  · exact ⟨f row, rfl, hdocuments row, hcutoff row⟩
  · exact ⟨row, rfl, rfl, rfl⟩

/-- Only a refresh that succeeds writes documents or a cutoff. -/
theorem sameDocuments_of_act (h : rivileAct db thread action = some (db', thread'))
    (hfailed : ∀ run, thread' ≠ .clearing run) : SameDocuments db db' := by
  unfold rivileAct at h
  split at h
  case h_2 =>
    split_ifs at h
    cases h
    exact .of_rows rfl
  case h_4 month requestedAt =>
    cases h
    exact .upsert (f := fun row => { row with requestedAt := some requestedAt, needsRefresh := true })
      (fun _ => rfl) (fun _ => rfl) rfl
  case h_6 =>
    cases h
    exact .upsert (fun _ => rfl) (fun _ => rfl) rfl
  case h_7 =>
    split_ifs at h <;> cases h
    · exact .update (fun _ => rfl) fun _ => rfl
    · exact .of_rows rfl
  case h_10 run loaded =>
    split_ifs at h <;> cases h
    · exact absurd rfl (hfailed run)
    · exact .of_rows rfl
  case h_11 | h_12 =>
    cases h
    exact .update (fun _ => rfl) fun _ => rfl
  case h_13 => cases h
  all_goals
    cases h
    exact .of_rows rfl

/-- What the lease guarantees in a world: a worker that has lost it writes nothing and does not find it
again, a statement of a refresh that has not succeeded leaves the documents and the cutoff, and every
request is pending or served by a refresh that started after it. -/
structure RefreshSafe (w : World RivileDb RivileThread) : Prop where
  lost : ∀ i run action w', (w.locals i).leased = some run → Lost w.store run →
    World.step rivileAct w (i, action) = some w' → w'.store.rows = w.store.rows
  stays : ∀ i run a w', (w.locals i).leased = some run → Lost w.store run → RivileGuard w a →
    World.step rivileAct w a = some w' → Lost w'.store run
  failed : ∀ i action w', World.step rivileAct w (i, action) = some w' →
    (∀ run, w'.locals i ≠ .clearing run) → SameDocuments w.store w'.store
  requests : RequestsOk w.store

theorem RivileInv.refreshSafe (h : RivileInv w) : RefreshSafe w where
  lost i run action w' hleased hlost hstep := by
    obtain ⟨db', thread', hact, rfl⟩ := World.step_eq_some.1 hstep
    exact rows_of_lost hleased hlost hact
  stays i run a w' hleased hlost hguard hstep := hlost.step h hguard hleased hstep
  failed i action w' hstep hfailed := by
    obtain ⟨db', thread', hact, rfl⟩ := World.step_eq_some.1 hstep
    exact sameDocuments_of_act hact fun run => by simpa using hfailed run
  requests := h.requests

/-- **The lease of a Rivile refresh.** Where no run publishes with a start before the cutoff that it found,
and no run clears a later request that waits under an earlier time, the lease is safe in every world reached
and no cutoff ever decreases. -/
theorem rivile_refresh_safe
    (h₀ : Run.ReachableVia (World.step rivileAct) RivileGuard rivileStart w) :
    RefreshSafe w ∧ ∀ w', Run.ReachableVia (World.step rivileAct) RivileGuard w w' →
      CutoffLe w.store w'.store := by
  have hinv : RivileInv w := h₀.invariant rivileInv_start fun _ _ _ hinv hguard hstep => (hinv.step hguard hstep).1
  refine ⟨hinv.refreshSafe, fun w' h => ?_⟩
  exact h.stable (R := fun u v => CutoffLe u.store v.store) hinv (fun u _ => CutoffLe.refl u.store)
    (fun _ _ _ => CutoffLe.trans) fun _ _ _ hinv hguard hstep => hinv.step hguard hstep

namespace Sample

def loaded : Loaded := ⟨[⟨"S-1", "100.00"⟩], "2026-07-01"⟩

/-- A month is requested, refreshed and published. -/
def requestedRefresh : List (ℕ × RivileAction) :=
  [(0, .tick 10), (0, .beginRequest "2026-07"), (0, .request), (0, .tick 20), (1, .beginRefresh "2026-07"),
    (1, .create), (1, .claim), (1, .load loaded loaded)]

/-- The first refresh stalls before its claim while the second one, started later, publishes. -/
def stalledRefresh : List (ℕ × RivileAction) :=
  [(0, .tick 10), (0, .beginRefresh "2026-07"), (0, .create), (2, .tick 20), (1, .beginRefresh "2026-07"),
    (1, .create), (1, .claim), (1, .load loaded loaded), (1, .publish), (1, .clear), (0, .claim),
    (0, .load loaded loaded)]

/-- The cutoff of the month. -/
def cutoff (w : World RivileDb RivileThread) : Option ℤ := (w.store.rows "2026-07").bind (·.cutoffAt)

end Sample

/-- A requested month is refreshed and keeps its cutoff. -/
theorem rivile_refresh_safe_sample :
    ∃ w w', RefreshSafe w ∧ Sample.cutoff w' = some 20 ∧ CutoffLe w.store w'.store := by
  have hquiet : ∃ w, Run.ReachableVia (World.step rivileAct) RivileGuard rivileStart w ∧
      w.locals 1 = .publishing ⟨"2026-07", 20, 0, none⟩ Sample.loaded ∧ ∃ w',
        World.step rivileAct w (1, .publish) = some w' ∧ Sample.cutoff w' = some 20 := by
    refine ⟨_, ⟨Sample.requestedRefresh, ?_, rfl⟩, rfl, _, rfl, rfl⟩
    repeat' first
      | exact trivial
      | refine ⟨⟨nofun, nofun⟩, fun w hw => ?_⟩
  obtain ⟨w, h₀, hthread, w', hstep, hcutoff⟩ := hquiet
  have hpublish : PublishGuard (w.locals 1) := by
    rw [hthread]
    rfl
  obtain ⟨hsafe, hle⟩ := rivile_refresh_safe h₀
  have hguard : RivileGuard w (1, .publish) := ⟨fun _ => hpublish, nofun⟩
  exact ⟨w, w', hsafe, hcutoff, hle w' (.single hguard hstep)⟩

/-- The refresh that stalled before its claim takes the cutoff back. -/
theorem rivile_cutoff_decreases :
    ∃ w w', Run.Reachable (World.step rivileAct) rivileStart w ∧
      World.step rivileAct w (0, .publish) = some w' ∧
      Sample.cutoff w = some 20 ∧ Sample.cutoff w' = some 10 := by
  have hrun : Run.run (World.step rivileAct) rivileStart Sample.stalledRefresh = some _ := rfl
  exact ⟨_, _, Run.reachable_of_run hrun, rfl, rfl, rfl⟩

end AmoAnalytics.Workspaces
