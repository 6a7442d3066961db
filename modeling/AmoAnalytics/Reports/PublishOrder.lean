import AmoAnalytics.Reports.SnapshotPrograms

/-!
# The source time of a published report

A computation reads the source time first and saves its report at the end, whatever was saved in between.
Where the computations of a snapshot publish in the order in which they read (`InReadOrder`), the source
time of the published report never decreases. The numbers of the reads carry the argument: the times in
the order of the reads do not decrease, and a published report comes from one of them.
-/

namespace AmoAnalytics.Reports

variable {env : ReportEnv} {db db' : ReportDb} {thread thread' : ReportThread} {action : ReportAction}

/-! ## Source times -/

theorem SyncTime.le_trans {a b c : SyncTime} (hab : a.le b = true) (hbc : b.le c = true) : a.le c = true := by
  cases a with
  | none => rfl
  | some a =>
    cases b with
    | none => exact absurd hab Bool.false_ne_true
    | some b =>
      cases c with
      | none => exact absurd hbc Bool.false_ne_true
      | some c =>
        have ha : a ≤ b := of_decide_eq_true hab
        have hb : b ≤ c := of_decide_eq_true hbc
        exact decide_eq_true (ha.trans hb)

/-- The source time of the published report of a key. -/
def ReportDb.published (db : ReportDb) (cacheKey : String) : Option SyncTime :=
  ((db.findSnapshot cacheKey).filter fun row => row.payload ≠ .pending).map (·.sourceSyncAt)

theorem ReportDb.published_eq_some {cacheKey : String} {time : SyncTime} :
    db.published cacheKey = some time ↔
      ∃ row, db.findSnapshot cacheKey = some row ∧ row.payload ≠ .pending ∧ row.sourceSyncAt = time := by
  simp only [ReportDb.published, Option.map_eq_some_iff, Option.filter_eq_some_iff, decide_eq_true_eq,
    and_assoc]

/-- The read `n` of the source time gave `time`. -/
def ReportDb.ReadAs (db : ReportDb) (n : ℕ) (time : SyncTime) : Prop := db.reads[n]? = some time

/-- The reads of the source time: they do not decrease, and the last time follows them. -/
structure ReadsInv (db : ReportDb) : Prop where
  sorted : db.reads.Pairwise fun a b => a.le b = true
  latest : ∀ time ∈ db.reads, time.le db.latestSyncAt = true

theorem ReadsInv.le_of_readAs (h : ReadsInv db) {m n : ℕ} {s t : SyncTime} (hm : db.ReadAs m s)
    (hn : db.ReadAs n t) (hmn : m ≤ n) : s.le t = true := by
  obtain ⟨hm', rfl⟩ := List.getElem?_eq_some_iff.1 hm
  obtain ⟨hn', rfl⟩ := List.getElem?_eq_some_iff.1 hn
  rcases hmn.eq_or_lt with rfl | hlt
  · exact SyncTime.le_refl _
  · exact List.pairwise_iff_getElem.1 h.sorted m n hm' hn' hlt

theorem ReadsInv.act (h : ReadsInv db) (hchange : SourceChange db db' thread thread') :
    ReadsInv db' ∧ db.reads <+: db'.reads := by
  cases hchange with
  | kept hreads hlatest =>
    refine ⟨⟨hreads ▸ h.sorted, fun time htime => ?_⟩, hreads ▸ List.prefix_rfl⟩
    exact SyncTime.le_trans (h.latest time (hreads ▸ htime)) hlatest
  | read hreads hlatest =>
    refine ⟨⟨?_, fun time htime => ?_⟩, hreads ▸ List.prefix_append _ _⟩
    · rw [hreads, List.pairwise_append]
      refine ⟨h.sorted, List.pairwise_singleton _ _, fun time htime other hother => ?_⟩
      obtain rfl := List.mem_singleton.1 hother
      exact h.latest time htime
    · rw [hlatest]
      rcases List.mem_append.1 (hreads ▸ htime) with hold | hnew
      · exact h.latest time hold
      · obtain rfl := List.mem_singleton.1 hnew
        exact SyncTime.le_refl _

theorem ReportDb.ReadAs.shorten {n : ℕ} {time : SyncTime} (h : db.ReadAs n time)
    (hreads : db.reads <+: db'.reads) : db'.ReadAs n time := by
  obtain ⟨rest, hrest⟩ := hreads
  obtain ⟨hn, -⟩ := List.getElem?_eq_some_iff.1 h
  rw [ReportDb.ReadAs, ← hrest, List.getElem?_append_left hn]
  exact h

/-- The operation holds what it has read. -/
def HoldsRead (db : ReportDb) (thread : ReportThread) : Prop :=
  ∀ read, thread.sourceRead = some read → db.ReadAs read.readAt read.time

theorem HoldsRead.act (h : HoldsRead db thread) (hreads : db.reads <+: db'.reads)
    (hchange : SourceChange db db' thread thread') : HoldsRead db' thread' := by
  intro read hread
  cases hchange with
  | kept _ _ hkept =>
    rcases hkept with hnone | hsame
    · rw [hnone] at hread
      cases hread
    · exact (h read (hsame ▸ hread)).shorten hreads
  | read hnew _ hkept =>
    rw [hkept] at hread
    cases hread
    rw [ReportDb.ReadAs, hnew]
    exact List.getElem?_concat_length

/-! ## Published reports -/

/-- The published report of a row comes from a read of its source time. -/
def Snapshot.FromRead (db : ReportDb) (row : Snapshot) : Prop :=
  row.payload ≠ .pending → ∃ n, row.publishedRead = some n ∧ db.ReadAs n row.sourceSyncAt

/-- A change of the snapshots that keeps the reports and their source times. -/
theorem fromRead_update {p : Snapshot → Bool} {f : Snapshot → Snapshot} (hsame : SameReport f)
    (h : ∀ row ∈ db.snapshots, row.FromRead db) :
    ∀ row ∈ Table.updateWhere p f db.snapshots, row.FromRead db := by
  intro row hrow hpayload
  obtain ⟨old, hold, rfl⟩ := Table.mem_updateWhere.1 hrow
  split_ifs at hpayload ⊢
  · rw [hsame.payload] at hpayload
    rw [hsame.publishedRead, hsame.sourceSyncAt]
    exact h old hold hpayload
  · exact h old hold hpayload

theorem findSnapshot_update {p : Snapshot → Bool} {f : Snapshot → Snapshot} (hsame : SameReport f)
    (hsnapshots : db'.snapshots = Table.updateWhere p f db.snapshots) (k : String) :
    db'.findSnapshot k = (db.findSnapshot k).map fun row => if p row then f row else row := by
  rw [ReportDb.findSnapshot, hsnapshots, Table.find?_updateWhere fun row _ => by rw [hsame.cacheKey]]
  rfl

theorem published_update {p : Snapshot → Bool} {f : Snapshot → Snapshot} (hsame : SameReport f)
    (hsnapshots : db'.snapshots = Table.updateWhere p f db.snapshots) (k : String) :
    db'.published k = db.published k := by
  rw [ReportDb.published, ReportDb.published, findSnapshot_update hsame hsnapshots]
  cases db.findSnapshot k with
  | none => rfl
  | some row =>
    by_cases hp : p row = true
    · simp only [Option.map_some, hp, if_true, Option.filter_some, hsame.payload]
      split_ifs <;> simp [hsame.sourceSyncAt]
    · simp [hp]

/-- The published reports of `db` are those of `db'` or older ones. -/
def NotOlder (db db' : ReportDb) : Prop :=
  ∀ k time, db.published k = some time → ∃ time', db'.published k = some time' ∧ time.le time' = true

theorem NotOlder.refl (db : ReportDb) : NotOlder db db := fun _ time h => ⟨time, h, SyncTime.le_refl _⟩

theorem NotOlder.trans {db₁ db₂ db₃ : ReportDb} (h₁ : NotOlder db₁ db₂) (h₂ : NotOlder db₂ db₃) :
    NotOlder db₁ db₃ := by
  intro k time htime
  obtain ⟨time₂, h₂', hle⟩ := h₁ k time htime
  obtain ⟨time₃, h₃', hle'⟩ := h₂ k time₂ h₂'
  exact ⟨time₃, h₃', SyncTime.le_trans hle hle'⟩

theorem NotOlder.of_eq (h : ∀ k, db'.published k = db.published k) : NotOlder db db' :=
  fun k time htime => ⟨time, (h k).trans htime, SyncTime.le_refl _⟩

theorem ReportDb.findSnapshot_cacheKey {k : String} {row : Snapshot} (h : db.findSnapshot k = some row) :
    row.cacheKey = k := by
  simpa using List.find?_some h

theorem findSnapshot_append {row : Snapshot} (hfresh : db.findSnapshot row.cacheKey = none) (k : String) :
    ({ db with snapshots := db.snapshots ++ [row] } : ReportDb).findSnapshot k =
      if k = row.cacheKey then some row else db.findSnapshot k := by
  unfold ReportDb.findSnapshot at hfresh ⊢
  rw [List.find?_append]
  split_ifs with hk
  · rw [hk, hfresh]
    simp
  · have hne : ¬row.cacheKey = k := fun h => hk h.symm
    simp [hne]

theorem findSnapshot_updateSnapshot {f : Snapshot → Snapshot} (hkey : ∀ row, (f row).cacheKey = row.cacheKey)
    (k k' : String) : (db.updateSnapshot k f).findSnapshot k' =
      if k' = k then (db.findSnapshot k').map f else db.findSnapshot k' := by
  have hupdate : (db.updateSnapshot k f).findSnapshot k' = (db.findSnapshot k').map fun row =>
      if decide (row.cacheKey = k) then f row else row :=
    Table.find?_updateWhere fun row _ => by rw [hkey]
  rw [hupdate]
  rcases hfound : db.findSnapshot k' with _ | row
  · split_ifs <;> rfl
  · rw [Option.map_some, Option.map_some, ReportDb.findSnapshot_cacheKey hfound]
    by_cases hk : k' = k
    · simp [hk]
    · simp [hk]

theorem findSnapshot_save {k : String} {saved : SavedReport} {now : ℤ} (k' : String) :
    (db.save k saved now).findSnapshot k' =
      if k' = k then some ((db.findSnapshot k).elim (saved.row k now) (·.save saved now))
      else db.findSnapshot k' := by
  unfold ReportDb.save
  split_ifs with hfound hk hk
  · obtain ⟨row, hrow⟩ := Option.isSome_iff_exists.1 hfound
    rw [findSnapshot_updateSnapshot (f := fun row => row.save saved now) fun _ => rfl, if_pos hk, hk, hrow]
    rfl
  · rw [findSnapshot_updateSnapshot (f := fun row => row.save saved now) fun _ => rfl, if_neg hk]
  · rw [Option.not_isSome_iff_eq_none] at hfound
    rw [findSnapshot_append hfound, if_pos (by exact hk), hfound]
    rfl
  · rw [Option.not_isSome_iff_eq_none] at hfound
    rw [findSnapshot_append hfound, if_neg (by exact hk)]

/-- A report is published over one of an earlier read, or of a read of the same source time. -/
def InReadOrder (db : ReportDb) (thread : ReportThread) (action : ReportAction) : Prop :=
  ∀ k saved, thread.saves action = some (k, saved) → saved.publishes = true →
    ∀ row, db.findSnapshot k = some row → row.payload ≠ .pending →
      ∀ m, row.publishedRead = some m → m ≤ saved.readAt ∨ db.ReadAs m saved.sourceSyncAt

theorem NotOlder.save (hreads : ReadsInv db) (hrows : ∀ row ∈ db.snapshots, row.FromRead db)
    {k : String} {saved : SavedReport} {now : ℤ} (hread : db.ReadAs saved.readAt saved.sourceSyncAt)
    (horder : saved.publishes = true → ∀ row, db.findSnapshot k = some row → row.payload ≠ .pending →
      ∀ m, row.publishedRead = some m → m ≤ saved.readAt ∨ db.ReadAs m saved.sourceSyncAt) :
    NotOlder db (db.save k saved now) := by
  intro k' time htime
  obtain ⟨row, hrow, hpayload, rfl⟩ := ReportDb.published_eq_some.1 htime
  by_cases hk : k' = k
  · subst hk
    have hfound : (db.save k' saved now).findSnapshot k' = some (row.save saved now) := by
      rw [findSnapshot_save, if_pos rfl, hrow]
      rfl
    by_cases hpublish : saved.publishes = true
    · refine ⟨saved.sourceSyncAt, ReportDb.published_eq_some.2 ⟨_, hfound, ?_, ?_⟩, ?_⟩
      · simp [Snapshot.save, hpublish]
      · simp [Snapshot.save, hpublish]
      · obtain ⟨m, hm, hreadAs⟩ := hrows row (List.mem_of_find?_eq_some hrow) hpayload
        rcases horder hpublish row hrow hpayload m hm with hle | hsame
        · exact hreads.le_of_readAs hreadAs hread hle
        · rw [ReportDb.ReadAs] at hreadAs hsame
          rw [Option.some.inj (hreadAs.symm.trans hsame)]
          exact SyncTime.le_refl _
    · refine ⟨row.sourceSyncAt, ReportDb.published_eq_some.2 ⟨_, hfound, ?_, ?_⟩, SyncTime.le_refl _⟩
      · simpa [Snapshot.save, hpublish] using hpayload
      · simp [Snapshot.save, hpublish]
  · refine ⟨row.sourceSyncAt, ReportDb.published_eq_some.2 ⟨row, ?_, hpayload, rfl⟩, SyncTime.le_refl _⟩
    rw [findSnapshot_save, if_neg hk, hrow]

theorem fromRead_save (hrows : ∀ row ∈ db.snapshots, row.FromRead db) {k : String} {saved : SavedReport}
    {now : ℤ} (hread : db.ReadAs saved.readAt saved.sourceSyncAt) :
    ∀ row ∈ (db.save k saved now).snapshots, row.FromRead db := by
  intro row hrow hpayload
  unfold ReportDb.save at hrow
  split_ifs at hrow
  · obtain ⟨old, hold, rfl⟩ := Table.mem_updateWhere.1 hrow
    split_ifs at hpayload ⊢
    · by_cases hpublish : saved.publishes = true
      · refine ⟨saved.readAt, ?_, ?_⟩ <;> simp [Snapshot.save, hpublish, hread]
      · simp only [Snapshot.save, hpublish, Bool.false_eq_true, if_false] at hpayload ⊢
        exact hrows old hold hpayload
    · exact hrows old hold hpayload
  · rcases List.mem_append.1 hrow with hold | hnew
    · exact hrows row hold hpayload
    · obtain rfl := List.mem_singleton.1 hnew
      by_cases hpublish : saved.publishes = true
      · refine ⟨saved.readAt, ?_, ?_⟩ <;> simp [SavedReport.row, hpublish, hread]
      · exact absurd (by simp [SavedReport.row, hpublish]) hpayload

/-! ## Steps and runs -/

/-- What holds of the snapshots after a statement: the reports come from reads, and none is older. -/
structure Publishes (db db' : ReportDb) : Prop where
  rows : ∀ row ∈ db'.snapshots, row.FromRead db
  notOlder : NotOlder db db'

theorem Publishes.of_snapshots (hrows : ∀ row ∈ db.snapshots, row.FromRead db)
    (hsnapshots : db'.snapshots = db.snapshots) : Publishes db db' := by
  refine ⟨hsnapshots ▸ hrows, NotOlder.of_eq fun k => ?_⟩
  rw [ReportDb.published, ReportDb.published, ReportDb.findSnapshot, hsnapshots]
  rfl

theorem Publishes.of_update (hrows : ∀ row ∈ db.snapshots, row.FromRead db) {p : Snapshot → Bool}
    {f : Snapshot → Snapshot} (hsame : SameReport f)
    (hsnapshots : db'.snapshots = Table.updateWhere p f db.snapshots) : Publishes db db' :=
  ⟨hsnapshots ▸ fromRead_update hsame hrows, NotOlder.of_eq (published_update hsame hsnapshots)⟩

theorem missing_same (request : ReportRequest) (now : ℤ) : SameReport fun row =>
    { row.request now with
      name := request.name, reportConfig := some request.config, lastAccessedAt := some now } := by
  constructor <;> intro row <;> unfold Snapshot.request <;> split_ifs <;> rfl

theorem Publishes.insertMissing (hrows : ∀ row ∈ db.snapshots, row.FromRead db) (request : ReportRequest)
    (now : ℤ) : Publishes db (db.insertMissing request now) := by
  unfold ReportDb.insertMissing
  split_ifs with hfound
  · exact .of_update hrows (missing_same request now) rfl
  · rw [Option.not_isSome_iff_eq_none] at hfound
    refine ⟨fun row hrow hpayload => ?_, NotOlder.of_eq fun k => ?_⟩
    · rcases List.mem_append.1 hrow with hold | hnew
      · exact hrows row hold hpayload
      · obtain rfl := List.mem_singleton.1 hnew
        exact absurd rfl hpayload
    · rw [ReportDb.published, ReportDb.published, findSnapshot_append hfound]
      split_ifs with hk
      · rw [hk]
        dsimp only
        rw [hfound]
        rfl
      · rfl

theorem publishes_of_tableChange (hreads : ReadsInv db) (hrows : ∀ row ∈ db.snapshots, row.FromRead db)
    (hthread : HoldsRead db thread) (horder : InReadOrder db thread action)
    (hchange : TableChange db db' thread action thread') : Publishes db db' := by
  cases hchange with
  | kept hsnapshots => exact .of_snapshots hrows hsnapshots
  | marked hdb hsame => exact .of_update hrows hsame (by rw [hdb]; rfl)
  | missing hdb => exact hdb ▸ .insertMissing hrows _ _
  | saved hdb hsaves hread =>
    have hreadAs := hthread _ hread
    exact hdb ▸ ⟨fromRead_save hrows hreadAs, NotOlder.save hreads hrows hreadAs (horder _ _ hsaves)⟩
  | enqueued hdb =>
    refine .of_snapshots hrows ?_
    rw [hdb, ReportDb.enqueueJob]
    split_ifs <;> rfl
  | @pruned now hdb =>
    refine .of_update (f := fun row =>
      { row with refreshStatus := .idle, refreshingAt := none, refreshError := none, updatedAt := now })
      hrows ⟨?_, ?_, ?_, ?_⟩ (by rw [hdb]; rfl)
    all_goals exact fun _ => rfl
  | @requeued now hdb =>
    refine .of_update (f := fun row =>
      { row with refreshStatus := .queued, refreshingAt := none, updatedAt := now })
      hrows ⟨?_, ?_, ?_, ?_⟩ (by rw [hdb]; rfl)
    all_goals exact fun _ => rfl
  | locked hdb =>
    refine .of_snapshots hrows ?_
    unfold ReportDb.lockJob at hdb
    split_ifs at hdb
    cases hdb
    rfl
  | closed hdb => exact .of_snapshots hrows (hdb ▸ rfl)

/-- The invariant of the tables. -/
structure PublishInv (db : ReportDb) : Prop where
  reads : ReadsInv db
  rows : ∀ row ∈ db.snapshots, row.FromRead db

/-- What the other operations may rely on across a statement. -/
def Publishing (db db' : ReportDb) : Prop := db.reads <+: db'.reads ∧ NotOlder db db'

theorem PublishInv.act (h : PublishInv db) (hthread : HoldsRead db thread)
    (horder : InReadOrder db thread action) (hact : reportAct env db thread action = some (db', thread')) :
    PublishInv db' ∧ HoldsRead db' thread' ∧ Publishing db db' := by
  have hsource := reportAct_source hact
  obtain ⟨hreads, hprefix⟩ := h.reads.act hsource
  have hpublishes := publishes_of_tableChange h.reads h.rows hthread horder (reportAct_tables hact)
  refine ⟨⟨hreads, fun row hrow hpayload => ?_⟩, hthread.act hprefix hsource, hprefix, hpublishes.notOlder⟩
  obtain ⟨n, hn, hreadAs⟩ := hpublishes.rows row hrow hpayload
  exact ⟨n, hn, hreadAs.shorten hprefix⟩

/-- The guard of a step of the world. -/
def InOrder (w : World ReportDb ReportThread) (a : ℕ × ReportAction) : Prop :=
  InReadOrder w.store (w.locals a.1) a.2

theorem publishInv_start : PublishInv reportStart.store ∧ ∀ i, HoldsRead reportStart.store (reportStart.locals i) :=
  ⟨⟨⟨List.Pairwise.nil, fun _ h => absurd h List.not_mem_nil⟩, fun _ h => absurd h List.not_mem_nil⟩,
    fun _ _ h => nomatch h⟩

/-- Where the computations of a snapshot publish in the order of their reads of the source time, the source
time of the published report of every key never decreases, whoever computes it. -/
theorem published_never_older {w w' : World ReportDb ReportThread}
    (h₀ : Run.ReachableVia (World.step (reportAct env)) InOrder reportStart w)
    (h : Run.ReachableVia (World.step (reportAct env)) InOrder w w') (cacheKey : String) (time : SyncTime)
    (htime : w.store.published cacheKey = some time) :
    ∃ time', w'.store.published cacheKey = some time' ∧ time.le time' = true := by
  have hrely : ∀ db db' thread, PublishInv db → HoldsRead db thread → Publishing db db' → HoldsRead db' thread :=
    fun _ _ _ _ hthread hpublishing read hread => (hthread read hread).shorten hpublishing.1
  have hw := World.guarded_invariant (g := InReadOrder) h₀ publishInv_start
    (fun _ _ _ _ _ hinv hthread horder hact => hinv.act hthread horder hact) hrely
  have hpublishing : Publishing w.store w'.store :=
    World.guarded_stable (g := InReadOrder) h hw (fun db => ⟨List.prefix_rfl, NotOlder.refl db⟩)
      (fun _ _ _ h₁ h₂ => ⟨h₁.1.trans h₂.1, h₁.2.trans h₂.2⟩)
      (fun _ _ _ _ _ hinv hthread horder hact => hinv.act hthread horder hact) hrely
  exact hpublishing.2 cacheKey time htime

namespace Sample

def publishEnv : ReportEnv := { periodOpen := fun _ _ => true }

def saleReport : ReportRequest := ⟨"key", "Отчёт", "{}"⟩

/-- The first runner reads the source at 10; its lock grows stale, and a second one reads the source at 20
and publishes. Then the first one publishes. -/
def lateRunner : List (ℕ × ReportAction) :=
  [(0, .sync (some 10)), (0, .insertMissing saleReport 0), (0, .insertJob 0),
    (1, .prune 0), (1, .requeue 0), (1, .list 1), (1, .lock 0), (1, .markRunning 0), (1, .readSource),
    (0, .sync (some 20)),
    (2, .prune 120_001), (2, .requeue 120_001), (2, .list 1), (2, .lock 120_001), (2, .markRunning 120_001),
    (2, .readSource), (2, .save "key" "20" "Отчёт" "{}" .certified none true 130_000)]

def lateSave : ℕ × ReportAction := (1, .save "key" "10" "Отчёт" "{}" .certified none true 140_000)

end Sample

/-- A report that is published stays published while the source goes on. -/
theorem published_never_older_sample :
    ∃ w w', w.store.published "key" = some (some 10) ∧
      Run.ReachableVia (World.step (reportAct Sample.publishEnv)) InOrder w w' ∧
      ∃ time', w'.store.published "key" = some time' ∧ (SyncTime.le (some 10) time') = true := by
  have hrun : ∃ w w', Run.ReachableVia (World.step (reportAct Sample.publishEnv)) InOrder reportStart w ∧
      Run.ReachableVia (World.step (reportAct Sample.publishEnv)) InOrder w w' ∧
      w.store.published "key" = some (some 10) := by
    refine ⟨_, _, (((Run.ReachableVia.single (a := (0, .sync (some 10))) nofun rfl).trans
      (.single (a := (0, .beginCompute Sample.saleReport false)) nofun rfl)).trans
      ((Run.ReachableVia.single (a := (0, .look)) nofun rfl).trans
      (.single (a := (0, .save "key" "10" "Отчёт" "{}" .certified none true 1)) ?_ rfl))),
      .single (a := (0, .sync (some 20))) nofun rfl, rfl⟩
    intro k saved hsaves _ row hrow
    cases hsaves
    cases hrow
  obtain ⟨w, w', h₀, h, htime⟩ := hrun
  exact ⟨w, w', htime, h, published_never_older h₀ h "key" (some 10) htime⟩

/-- The late runner replaces the report of the later source state. -/
theorem published_older :
    ∃ w w', Run.Reachable (World.step (reportAct Sample.publishEnv)) reportStart w ∧
      World.step (reportAct Sample.publishEnv) w Sample.lateSave = some w' ∧
      w.store.published "key" = some (some 20) ∧ w'.store.published "key" = some (some 10) := by
  have hrun : Run.run (World.step (reportAct Sample.publishEnv)) reportStart Sample.lateRunner = some _ := rfl
  exact ⟨_, _, Run.reachable_of_run hrun, rfl, rfl, rfl⟩

end AmoAnalytics.Reports
