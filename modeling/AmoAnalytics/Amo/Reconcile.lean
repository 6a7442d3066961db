import AmoAnalytics.Amo.Connection

/-!
# Reconcile windows

`reconcileRecentChanges` asks amoCRM for the changes of a window of whole seconds and then moves the
cursor `recentReconcileAt` to the end of the window. The windows of the successful runs leave no
second out: the window of a run starts at or before the cursor (`reconcileFrom_le`), and its end,
the next cursor, is not before it (`le_reconcileThrough`).
-/

namespace AmoAnalytics.Amo

open CrmControl (Json timeClip)

variable (newDate : String → Option ℤ)

/-! ## One run -/

/-- What a run meets: its clock, the two settings, and how the requests and writes within `try` end. -/
structure ReconcileRun where
  startedAt : ℤ
  lookbackMinutes : Option ℚ := none
  overlapMinutes : Option ℚ := none
  work : Except String (List (String × ℚ)) := .ok []
  failedAt : ℤ := startedAt
  /-- The `catch` branch could save the error. -/
  errorSaved : Bool := true

namespace ReconcileRun

variable (run : ReconcileRun)

def lookbackMs : ℚ := getRecentReconcileLookbackMinutes run.lookbackMinutes * 60_000

def overlapMs : ℚ := getRecentReconcileOverlapMinutes run.overlapMinutes * 60_000

theorem lookbackMs_pos : 0 < run.lookbackMs :=
  mul_pos (lookbackMinutes_pos _) (by norm_num)

theorem overlapMs_nonneg : 0 ≤ run.overlapMs :=
  mul_nonneg (overlapMinutes_nonneg _) (by norm_num)

/-- `recentReconcileFrom`, behind its check of the cursor; `none` is an invalid `Date`. -/
def recentReconcileFrom (previousCursor : Option ℤ) : Option ℤ :=
  match previousCursor with
  | some cursor => timeClip (cursor - run.overlapMs)
  | none => timeClip (run.startedAt - run.lookbackMs)

/-- `syncThrough`: at most `lookback` after the cursor, and not after the start of the run. -/
def reconcileThrough (previousCursor syncFrom : Option ℤ) : Option ℤ :=
  (previousCursor.or syncFrom).bind fun base =>
    timeClip (min (run.startedAt : ℚ) (base + run.lookbackMs))

end ReconcileRun

/-- A window of whole seconds, both ends included. -/
structure SyncWindow where
  updatedSince : ℤ
  updatedThrough : ℤ
  deriving DecidableEq

/-- `Math.floor(date.getTime() / 1000)`. -/
def toSeconds (time : ℤ) : ℤ := time / 1000

def SyncWindow.ofInstants (syncFrom syncThrough : ℤ) : SyncWindow :=
  ⟨toSeconds syncFrom, toSeconds syncThrough⟩

/-- How a run ends without an error. -/
inductive ReconcileOutcome
  | waitingInitialSnapshot
  | ok (syncFrom syncThrough : ℤ)
  deriving DecidableEq

/-- The patch of the `catch` branch. -/
def reconcileErrorPatch (message : String) (failedAt : ℤ) : Config :=
  .ofFields [("recentReconcileError", .text message), ("recentReconcileErrorAt", .instant failedAt)]

/-- The patch of a successful run. -/
def reconcilePatch (syncFrom syncThrough : ℤ) (stats : List (String × ℚ)) : Config :=
  .ofFields [("recentReconcileAt", .instant syncThrough), ("recentReconcileFrom", .instant syncFrom),
    ("recentReconcileStats", .json (.obj (stats.map fun e => (e.1, .num e.2)))),
    ("recentReconcileError", .null), ("recentReconcileErrorAt", .null)]

/-- The other columns of a successful run. -/
def reconcileData (syncThrough : ℤ) : ConnectionData where
  status := some .active
  lastError := some none
  lastReconcileAt := some (some syncThrough)

/-- The `catch` branch. -/
def reconcileFailed (connection : AmoConnection) (run : ReconcileRun) (message : String) :
    AmoConnection × Except String ReconcileOutcome :=
  (if run.errorSaved then connection.updateConfig (reconcileErrorPatch message run.failedAt)
    else connection, .error message)

/-- `reconcileRecentChanges`. An invalid `Date` throws when `toISOString` is called on it. -/
def reconcileRecentChanges (connection : AmoConnection) (run : ReconcileRun) :
    AmoConnection × Except String ReconcileOutcome :=
  let previousCursor := connection.recentReconcileAt newDate
  if connection.lastFullSyncAt = none then (connection, .ok .waitingInitialSnapshot)
  else if previousCursor.any fun cursor => run.startedAt < cursor then
    (connection, .error "amoCRM reconciliation cursor is in the future")
  else
    let syncFrom := run.recentReconcileFrom previousCursor
    let syncThrough := run.reconcileThrough previousCursor syncFrom
    match run.work with
    | .error message => reconcileFailed connection run message
    | .ok stats =>
      match syncThrough, syncFrom with
      | some through, some since =>
        (connection.updateConfig (reconcilePatch since through stats) (reconcileData through),
          .ok (.ok since through))
      | _, _ => reconcileFailed connection run "Invalid time value"

/-- The window of a successful run. -/
def ReconcileOutcome.window : ReconcileOutcome → Option SyncWindow
  | .waitingInitialSnapshot => none
  | .ok syncFrom syncThrough => some (.ofInstants syncFrom syncThrough)

/-- The window that a run has covered. -/
def coveredWindow : Except String ReconcileOutcome → Option SyncWindow
  | .ok outcome => outcome.window
  | .error _ => none

/-! ## Cursor and window -/

section Window

variable {run : ReconcileRun} {cursor since through : ℤ}

theorem le_timeClip {t u : ℤ} {x : ℚ} (h : timeClip x = some t) (hu : (u : ℚ) ≤ x) : u ≤ t := by
  unfold timeClip at h
  split_ifs at h <;> obtain rfl := Option.some.inj h
  · exact_mod_cast hu.trans (Int.le_ceil x)
  · exact Int.le_floor.2 hu

theorem timeClip_le {t u : ℤ} {x : ℚ} (h : timeClip x = some t) (hu : x ≤ u) : t ≤ u := by
  unfold timeClip at h
  split_ifs at h <;> obtain rfl := Option.some.inj h
  · exact Int.ceil_le.2 hu
  · exact_mod_cast (Int.floor_le x).trans hu

/-- A window starts at or before the cursor. -/
theorem reconcileFrom_le (h : run.recentReconcileFrom (some cursor) = some since) : since ≤ cursor :=
  timeClip_le h (sub_le_self _ run.overlapMs_nonneg)

/-- A window does not end before the cursor. -/
theorem le_reconcileThrough {syncFrom : Option ℤ} (hcursor : cursor ≤ run.startedAt)
    (h : run.reconcileThrough (some cursor) syncFrom = some through) : cursor ≤ through := by
  refine le_timeClip h (le_min (by exact_mod_cast hcursor) ?_)
  exact le_add_of_nonneg_right run.lookbackMs_pos.le

/-- A window does not end after the start of the run. -/
theorem reconcileThrough_le {base syncFrom : Option ℤ}
    (h : run.reconcileThrough base syncFrom = some through) : through ≤ run.startedAt := by
  obtain ⟨b, -, hb⟩ := Option.bind_eq_some_iff.1 h
  exact timeClip_le hb (min_le_left _ _)

end Window

/-! ## What one run does to the cursor -/

theorem reconcileErrorPatch_cursor (message : String) (failedAt : ℤ) :
    reconcileErrorPatch message failedAt "recentReconcileAt" = none := by
  simp [reconcileErrorPatch, Config.ofFields, List.lookup]

theorem reconcilePatch_cursor (since through : ℤ) (stats : List (String × ℚ)) :
    reconcilePatch since through stats "recentReconcileAt" = some (.instant through) := rfl

theorem reconcileFailed_cursor (connection : AmoConnection) (run : ReconcileRun) (message : String) :
    (reconcileFailed connection run message).1.recentReconcileAt newDate =
      connection.recentReconcileAt newDate := by
  unfold reconcileFailed
  split_ifs
  · rw [AmoConnection.recentReconcileAt, AmoConnection.updateConfig_config,
      Config.spread_of_none (reconcileErrorPatch_cursor message run.failedAt)]
    rfl
  · rfl

/-- The two kinds of a run: it covers no window and the cursor stays, or it covers a window that
reaches the old cursor and whose end is the new one. -/
theorem reconcile_cases (connection : AmoConnection) (run : ReconcileRun) :
    (coveredWindow (reconcileRecentChanges newDate connection run).2 = none ∧
      (reconcileRecentChanges newDate connection run).1.recentReconcileAt newDate =
        connection.recentReconcileAt newDate) ∨
    ∃ since through,
      coveredWindow (reconcileRecentChanges newDate connection run).2 =
        some (.ofInstants since through) ∧
      (reconcileRecentChanges newDate connection run).1.recentReconcileAt newDate = some through ∧
      through ≤ run.startedAt ∧
      ∀ cursor, connection.recentReconcileAt newDate = some cursor →
        since ≤ cursor ∧ cursor ≤ through := by
  unfold reconcileRecentChanges
  by_cases hwait : connection.lastFullSyncAt = none
  · exact Or.inl (by simp [hwait, coveredWindow, ReconcileOutcome.window])
  simp only [hwait, if_false]
  by_cases hfuture : (connection.recentReconcileAt newDate).any fun cursor => run.startedAt < cursor
  · exact Or.inl (by simp [hfuture, coveredWindow])
  rw [if_neg hfuture]
  rcases hwork : run.work with message | stats
  · exact Or.inl ⟨rfl, reconcileFailed_cursor newDate connection run message⟩
  rcases hthrough : run.reconcileThrough (connection.recentReconcileAt newDate)
    (run.recentReconcileFrom (connection.recentReconcileAt newDate)) with _ | through
  · exact Or.inl ⟨rfl, reconcileFailed_cursor newDate connection run _⟩
  rcases hsince : run.recentReconcileFrom (connection.recentReconcileAt newDate) with _ | since
  · exact Or.inl ⟨rfl, reconcileFailed_cursor newDate connection run _⟩
  refine Or.inr ⟨since, through, rfl, ?_, reconcileThrough_le hthrough, ?_⟩
  · rw [AmoConnection.recentReconcileAt, AmoConnection.updateConfig_config,
      Config.spread_of_some (reconcilePatch_cursor since through stats)]
    rfl
  · intro cursor hcursor
    rw [hcursor] at hfuture hthrough hsince
    have hle : cursor ≤ run.startedAt := by simpa using hfuture
    exact ⟨reconcileFrom_le hsince, le_reconcileThrough hle hthrough⟩

/-- A run that fails leaves the cursor as it was. -/
theorem cursor_of_error {connection : AmoConnection} {run : ReconcileRun} {message : String}
    (h : (reconcileRecentChanges newDate connection run).2 = .error message) :
    (reconcileRecentChanges newDate connection run).1.recentReconcileAt newDate =
      connection.recentReconcileAt newDate := by
  rcases reconcile_cases newDate connection run with hstay | ⟨since, through, hwindow, -⟩
  · exact hstay.2
  · rw [h] at hwindow
    cases hwindow

/-! ## Sequences of runs -/

/-- The connection after the runs, and the windows of the successful ones in order. -/
def reconcileRuns : AmoConnection → List ReconcileRun → AmoConnection × List SyncWindow
  | connection, [] => (connection, [])
  | connection, run :: runs =>
    let first := reconcileRecentChanges newDate connection run
    let rest := reconcileRuns first.1 runs
    (rest.1, (coveredWindow first.2).toList ++ rest.2)

/-- The seconds that the windows cover. -/
def Covered (windows : List SyncWindow) : Set ℤ :=
  ⋃ window ∈ windows, Set.Icc window.updatedSince window.updatedThrough

theorem mem_covered {windows : List SyncWindow} {second : ℤ} : second ∈ Covered windows ↔
    ∃ window ∈ windows, window.updatedSince ≤ second ∧ second ≤ window.updatedThrough := by
  simp only [Covered, Set.mem_iUnion, Set.mem_Icc, exists_prop]

theorem toSeconds_mono : Monotone toSeconds := fun _ _ h => Int.ediv_le_ediv (by norm_num) h

theorem covered_mono {windows more : List SyncWindow} (h : windows ⊆ more) :
    Covered windows ⊆ Covered more := fun _ hs => by
  obtain ⟨window, hmem, hwindow⟩ := mem_covered.1 hs
  exact mem_covered.2 ⟨window, h hmem, hwindow⟩

/-- From a stored cursor on, the runs cover every second up to the cursor they leave behind. -/
theorem runs_cover_from_cursor (runs : List ReconcileRun) :
    ∀ {connection : AmoConnection} {cursor : ℤ}, connection.recentReconcileAt newDate = some cursor →
      ∃ last, (reconcileRuns newDate connection runs).1.recentReconcileAt newDate = some last ∧
        Set.Ioc (toSeconds cursor) (toSeconds last) ⊆
          Covered (reconcileRuns newDate connection runs).2 := by
  induction runs with
  | nil =>
    intro connection cursor hcursor
    exact ⟨cursor, hcursor, by simp⟩
  | cons run runs ih =>
    intro connection cursor hcursor
    rw [reconcileRuns]
    rcases reconcile_cases newDate connection run with
      ⟨hwindow, hstay⟩ | ⟨since, through, hwindow, hnext, -, hreach⟩
    · obtain ⟨last, hlast, hcover⟩ := ih (hstay.trans hcursor)
      exact ⟨last, hlast, by simpa [hwindow] using hcover⟩
    · obtain ⟨last, hlast, hcover⟩ := ih hnext
      obtain ⟨hsince, -⟩ := hreach cursor hcursor
      refine ⟨last, hlast, ?_⟩
      rintro second ⟨hlow, hhigh⟩
      rw [hwindow, mem_covered]
      rcases le_or_gt second (toSeconds through) with hin | hout
      · exact ⟨.ofInstants since through, by simp,
          (toSeconds_mono hsince).trans hlow.le, hin⟩
      · obtain ⟨window, hmem, hwin⟩ := mem_covered.1 (hcover ⟨hout, hhigh⟩)
        exact ⟨window, by simp [hmem], hwin⟩

/-- The cursor stays at or before the clock, so no run after it finds it in the future. -/
theorem cursor_le_clock {now : ℤ} (runs : List ReconcileRun) :
    ∀ {connection : AmoConnection}, (∀ run ∈ runs, run.startedAt ≤ now) →
      (∀ cursor, connection.recentReconcileAt newDate = some cursor → cursor ≤ now) →
      ∀ cursor, (reconcileRuns newDate connection runs).1.recentReconcileAt newDate = some cursor →
        cursor ≤ now := by
  induction runs with
  | nil =>
    intro connection _ hcursor
    exact hcursor
  | cons run runs ih =>
    intro connection hclock hcursor
    refine ih (fun r hr => hclock r (List.mem_cons_of_mem _ hr)) ?_
    rcases reconcile_cases newDate connection run with
      ⟨-, hstay⟩ | ⟨since, through, -, hnext, hle, -⟩
    · rwa [hstay]
    · rw [hnext]
      rintro _ ⟨rfl⟩
      exact hle.trans (hclock run List.mem_cons_self)

theorem cursor_forward (runs : List ReconcileRun) :
    ∀ {connection : AmoConnection} {cursor : ℤ}, connection.recentReconcileAt newDate = some cursor →
      ∃ last, (reconcileRuns newDate connection runs).1.recentReconcileAt newDate = some last ∧ cursor ≤ last := by
  induction runs with
  | nil => exact fun hcursor => ⟨_, hcursor, le_rfl⟩
  | cons run runs ih =>
    intro connection cursor hcursor
    rcases reconcile_cases newDate connection run with ⟨-, hstay⟩ | ⟨since, through, -, hnext, -, hreach⟩
    · exact ih (hstay.trans hcursor)
    · obtain ⟨last, hlast, hle⟩ := ih hnext
      exact ⟨last, hlast, (hreach cursor hcursor).2.trans hle⟩

/-- Whatever runs succeed and fail, the cursor never goes back and never gets ahead of the clock. -/
theorem cursor_between (connection : AmoConnection) (runs : List ReconcileRun) (now : ℤ)
    (hclock : ∀ run ∈ runs, run.startedAt ≤ now)
    (hcursor : ∀ cursor, connection.recentReconcileAt newDate = some cursor → cursor ≤ now) :
    (∀ cursor, connection.recentReconcileAt newDate = some cursor → ∃ last,
      (reconcileRuns newDate connection runs).1.recentReconcileAt newDate = some last ∧ cursor ≤ last) ∧
    ∀ last, (reconcileRuns newDate connection runs).1.recentReconcileAt newDate = some last → last ≤ now :=
  ⟨fun _ h => cursor_forward newDate runs h, cursor_le_clock newDate runs hclock hcursor⟩

/-- The first window starts the covered interval, also when no cursor was stored before it. -/
theorem runs_cover_from_first (runs : List ReconcileRun) :
    ∀ {connection : AmoConnection} {first : SyncWindow} {rest : List SyncWindow},
      (reconcileRuns newDate connection runs).2 = first :: rest →
      ∃ last, (reconcileRuns newDate connection runs).1.recentReconcileAt newDate = some last ∧
        Set.Icc first.updatedSince (toSeconds last) ⊆ Covered (first :: rest) := by
  induction runs with
  | nil =>
    intro connection first rest h
    cases h
  | cons run runs ih =>
    intro connection first rest h
    rw [reconcileRuns] at h ⊢
    rcases reconcile_cases newDate connection run with
      ⟨hwindow, -⟩ | ⟨since, through, hwindow, hnext, -⟩
    · rw [hwindow] at h
      exact ih h
    · rw [hwindow] at h
      obtain ⟨rfl, rfl⟩ := List.cons.inj h
      obtain ⟨last, hlast, hcover⟩ := runs_cover_from_cursor newDate runs hnext
      refine ⟨last, hlast, ?_⟩
      rintro second ⟨hlow, hhigh⟩
      rcases le_or_gt second (toSeconds through) with hin | hout
      · exact mem_covered.2 ⟨_, List.mem_cons_self, hlow, hin⟩
      · exact covered_mono (List.subset_cons_self _ _) (hcover ⟨hout, hhigh⟩)

/-- The windows of the successful runs cover every second from the start of the first of them to the
stored cursor, and a failed run, wherever it stands, leaves the cursor as it was. -/
theorem reconcile_windows_cover (connection : AmoConnection) (runs : List ReconcileRun) :
    (∀ first rest, (reconcileRuns newDate connection runs).2 = first :: rest →
      ∃ last, (reconcileRuns newDate connection runs).1.recentReconcileAt newDate = some last ∧
        Set.Icc first.updatedSince (toSeconds last) ⊆ Covered (first :: rest)) ∧
    ∀ run message,
      (reconcileRecentChanges newDate (reconcileRuns newDate connection runs).1 run).2 =
        .error message →
      (reconcileRecentChanges newDate (reconcileRuns newDate connection runs).1 run).1.recentReconcileAt
          newDate =
        (reconcileRuns newDate connection runs).1.recentReconcileAt newDate :=
  ⟨fun _ _ h => runs_cover_from_first newDate runs h, fun _ _ h => cursor_of_error newDate h⟩

section Sample

/-- A connection after its first full synchronisation. -/
def sampleConnection : AmoConnection where
  id := "c1"
  credentials := ⟨"access", "refresh", 0⟩
  status := .active
  lastFullSyncAt := some 0

/-- Two successful runs, half an hour apart, with a failed one between them. -/
def sampleRuns : List ReconcileRun :=
  [{ startedAt := 7_200_000 }, { startedAt := 7_800_500, work := .error "amoCRM 503" },
    { startedAt := 9_000_500 }]

theorem reconcile_windows_cover_sample :
    (∃ last, (reconcileRuns (fun _ => none) sampleConnection sampleRuns).1.recentReconcileAt
        (fun _ => none) = some last ∧
      Set.Icc 5400 (toSeconds last) ⊆ Covered [⟨5400, 7200⟩, ⟨7080, 9000⟩]) ∧
    (reconcileRecentChanges (fun _ => none)
        (reconcileRuns (fun _ => none) sampleConnection sampleRuns).1
        { startedAt := 9_100_000, work := .error "amoCRM 503" }).1.recentReconcileAt (fun _ => none) =
      (reconcileRuns (fun _ => none) sampleConnection sampleRuns).1.recentReconcileAt
        (fun _ => none) := by
  obtain ⟨hcover, hfail⟩ := reconcile_windows_cover (fun _ => none) sampleConnection sampleRuns
  exact ⟨hcover ⟨5400, 7200⟩ [⟨7080, 9000⟩] (by decide +kernel),
    hfail { startedAt := 9_100_000, work := .error "amoCRM 503" } "amoCRM 503"
      (by decide +kernel)⟩

theorem cursor_between_sample : ∃ last, (reconcileRuns (fun _ => none) (reconcileRuns (fun _ => none)
    sampleConnection sampleRuns).1 [{ startedAt := 9_600_000 }]).1.recentReconcileAt (fun _ => none) = some last ∧
      9_000_000 ≤ last ∧ last ≤ 9_600_000 := by
  have hstored : (reconcileRuns (fun _ => none) sampleConnection sampleRuns).1.recentReconcileAt
      (fun _ => none) = some 9_000_000 := by decide +kernel
  obtain ⟨hforward, hclock⟩ := cursor_between (fun _ => none) (reconcileRuns (fun _ => none)
    sampleConnection sampleRuns).1 [{ startedAt := 9_600_000 }] 9_600_000 (by decide) fun cursor hcursor => by
      have heq : 9_000_000 = cursor := Option.some.inj (hstored.symm.trans hcursor)
      omega
  obtain ⟨last, hlast, hle⟩ := hforward _ hstored
  exact ⟨last, hlast, hle, hclock _ hlast⟩

end Sample

end AmoAnalytics.Amo
