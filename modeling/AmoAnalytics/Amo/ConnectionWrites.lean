import AmoAnalytics.Amo.SyncJob

/-!
# Concurrent writes of the connection

Every write of a connection row is a single statement, but two kinds of writes carry what an earlier
statement has read: a configuration patch writes the whole column, and the end of a job writes
`lastFullSyncAt` again. `syncAct_connection` lists the writes. They lose nothing in a run where what
they carry is still what is stored (`NothingInBetween`).
-/

namespace AmoAnalytics.Amo

variable {env : SyncEnv}

/-! ## The writes -/

/-- The configuration write that a program is about to make: connection, configuration read, patch. -/
def SyncProgram.writing : SyncProgram → Option (String × Config × Config)
  | .patching connectionId patch _ read => some (connectionId, read, patch)
  | .subscribing _ connection _ patch read => some (connection.id, read, patch)
  | _ => none

theorem writing_eq_some {program : SyncProgram} {id : String} {read patch : Config}
    (h : program.writing = some (id, read, patch)) :
    (∃ data, program = .patching id patch data read) ∨
      ∃ job connection syncStartedAt, connection.id = id ∧
        program = .subscribing job connection syncStartedAt patch read := by
  cases program with
  | patching => cases h; exact Or.inl ⟨_, rfl⟩
  | subscribing => cases h; exact Or.inr ⟨_, _, _, rfl, rfl⟩
  | _ => cases h

/-- What a statement does to the row `c` of the connection `id`. -/
inductive ConnectionChange (db db' : SyncDb) (id : String) (c c' : AmoConnection) :
    SyncProgram → SyncAction → Prop
  | kept {program action} (hconfig : c'.config = c.config)
      (hfull : c'.lastFullSyncAt = c.lastFullSyncAt) (hpatches : db'.patches id = db.patches id) :
      ConnectionChange db db' id c c' program action
  | patched {program read patch data} (hwriting : program.writing = some (id, read, patch))
      (hrow : c' = c.writeConfig read patch data)
      (hpatches : db'.patches id = db.patches id ++ [patch]) :
      ConnectionChange db db' id c c' program .writeConfig
  | saved {job read syncStartedAt finishedAt grouped} (hid : id = read.id)
      (hrow : c' = saveFinished job read syncStartedAt finishedAt grouped c)
      (hpatches : db'.patches id = db.patches id) :
      ConnectionChange db db' id c c' (.finished job read syncStartedAt finishedAt) (.save grouped)

section Rows

variable {db db' : SyncDb} {program program' : SyncProgram} {action : SyncAction} {id : String}
  {c : AmoConnection}

theorem updateConnection_get {f : AmoConnection → AmoConnection} {other : String}
    (h : db.connections id = some c) :
    (db.updateConnection other f).connections id = some (if id = other then f c else c) := by
  unfold SyncDb.updateConnection
  by_cases hid : id = other
  · subst hid
    simp [h]
  · simp [hid, h]

/-- An update of other columns. -/
theorem ConnectionChange.update (f : AmoConnection → AmoConnection) (other : String)
    (hconfig : ∀ row, (f row).config = row.config)
    (hfull : ∀ row, (f row).lastFullSyncAt = row.lastFullSyncAt) (h : db.connections id = some c) :
    ∃ c', (db.updateConnection other f).connections id = some c' ∧
      ConnectionChange db (db.updateConnection other f) id c c' program action := by
  refine ⟨_, updateConnection_get h, .kept ?_ ?_ rfl⟩ <;> split_ifs
  · exact hconfig c
  · rfl
  · exact hfull c
  · rfl

/-- A configuration write. -/
theorem ConnectionChange.write {other : String} {read patch : Config} {data : ConnectionData}
    (hwriting : program.writing = some (other, read, patch)) (h : db.connections id = some c) :
    ∃ c', (db.writeConfig other read patch data).connections id = some c' ∧
      ConnectionChange db (db.writeConfig other read patch data) id c c' program .writeConfig := by
  refine ⟨_, updateConnection_get h, ?_⟩
  by_cases hid : id = other
  · subst hid
    refine .patched hwriting (by rw [if_pos rfl]) ?_
    simp [SyncDb.writeConfig]
  · refine .kept (by rw [if_neg hid]) (by rw [if_neg hid]) ?_
    simp [SyncDb.writeConfig, hid]

/-- Every statement keeps the rows and changes them in one of the listed ways. -/
theorem syncAct_connection (h : syncAct env db program action = some (db', program'))
    (hrow : db.connections id = some c) :
    ∃ c', db'.connections id = some c' ∧ ConnectionChange db db' id c c' program action := by
  have hkept : ∀ {db' : SyncDb} {program action}, db'.connections = db.connections →
      db'.patches = db.patches → ∃ c', db'.connections id = some c' ∧
        ConnectionChange db db' id c c' program action := by
    intro db' program action hconnections hpatches
    exact ⟨c, by rw [hconnections, hrow], .kept rfl rfl (by rw [hpatches])⟩
  have hread : ∀ {row : Option AmoConnection} {f : AmoConnection → SyncProgram} {program action},
      row.map (fun read => (db, f read)) = some (db', program') →
        ∃ c', db'.connections id = some c' ∧ ConnectionChange db db' id c c' program action := by
    intro row f program action hmap
    obtain ⟨read, -, heq⟩ := Option.map_eq_some_iff.1 hmap
    cases heq
    exact hkept rfl rfl
  unfold syncAct at h
  split at h
  case h_1 => cases h; exact hkept rfl rfl
  case h_2 => exact hread h
  case h_3 => cases h; exact ConnectionChange.write rfl hrow
  case h_4 => exact hread h
  case h_5 =>
    split at h
    · cases h; exact hkept rfl rfl
    · exact hread h
  case h_6 => exact hread h
  case h_7 => cases h; exact hkept rfl rfl
  case h_8 => cases h; exact ConnectionChange.update _ _ (fun _ => rfl) (fun _ => rfl) hrow
  case h_9 =>
    split_ifs at h
    split at h <;> cases h <;> exact hkept rfl rfl
  case h_10 => cases h; exact hkept rfl rfl
  case h_11 => cases h; exact hkept rfl rfl
  case h_12 =>
    split at h
    · cases h; exact hkept rfl rfl
    · exact hread h
  case h_13 => cases h; exact hkept rfl rfl
  case h_14 => cases h; exact ConnectionChange.update _ _ (fun _ => rfl) (fun _ => rfl) hrow
  case h_15 => cases h; exact hkept rfl rfl
  case h_16 => exact hread h
  case h_17 => cases h; exact ConnectionChange.write rfl hrow
  case h_18 => cases h; exact hkept rfl rfl
  case h_19 => cases h; exact hkept rfl rfl
  case h_20 => cases h; exact hkept rfl rfl
  case h_21 job read syncStartedAt finishedAt grouped =>
    cases h
    refine ⟨_, updateConnection_get hrow, ?_⟩
    by_cases hid : id = read.id
    · exact .saved hid (by rw [if_pos hid]) rfl
    · exact .kept (by rw [if_neg hid]) (by rw [if_neg hid]) rfl
  case h_22 => cases h; exact hkept rfl rfl
  case h_23 => cases h; exact hkept rfl rfl
  case h_24 => cases h; exact ConnectionChange.update _ _ (fun _ => rfl) (fun _ => rfl) hrow
  case h_25 => cases h

end Rows

/-! ## Runs that lose nothing -/

/-- A time that is known stays known and does not decrease. -/
def LeTime (a b : Option ℤ) : Prop := ∀ t, a = some t → ∃ u, b = some u ∧ t ≤ u

theorem LeTime.refl (a : Option ℤ) : LeTime a a := fun t h => ⟨t, h, le_rfl⟩

theorem LeTime.trans {a b c : Option ℤ} (hab : LeTime a b) (hbc : LeTime b c) : LeTime a c := by
  intro t ht
  obtain ⟨u, hu, htu⟩ := hab t ht
  obtain ⟨v, hv, huv⟩ := hbc u hu
  exact ⟨v, hv, htu.trans huv⟩

/-- What a write carries is what is stored: a configuration write has read every key outside its patch
as it is, a job that is not full has read the stored `lastFullSyncAt`, and a full job does not finish
before it. -/
def NothingInBetween (w : World SyncDb SyncProgram) (a : ℕ × SyncAction) : Prop :=
  match w.locals a.1, a.2 with
  | .patching connectionId patch _ read, .writeConfig =>
    ∀ c, w.store.connections connectionId = some c → ∀ key, patch key = none → read key = c.config key
  | .subscribing _ connection _ patch read, .writeConfig =>
    ∀ c, w.store.connections connection.id = some c → ∀ key, patch key = none → read key = c.config key
  | .finished job read _ finishedAt, .save _ =>
    ∀ c, w.store.connections read.id = some c →
      if job.type = .full then ∀ t, c.lastFullSyncAt = some t → t ≤ finishedAt
      else c.lastFullSyncAt = read.lastFullSyncAt
  | _, _ => True

/-- The later row of a connection: `lastFullSyncAt` has not decreased, and the configuration holds the
patches written since, one over the other. -/
def RowKept (id : String) (db db' : SyncDb) : Prop :=
  ∀ c, db.connections id = some c → ∃ c', db'.connections id = some c' ∧
    LeTime c.lastFullSyncAt c'.lastFullSyncAt ∧
    ∃ written, db'.patches id = db.patches id ++ written ∧
      c'.config = written.foldl Config.spread c.config

theorem RowKept.refl (id : String) (db : SyncDb) : RowKept id db db :=
  fun c hc => ⟨c, hc, LeTime.refl _, [], by simp, rfl⟩

theorem RowKept.trans {id : String} {db₁ db₂ db₃ : SyncDb} (h₁₂ : RowKept id db₁ db₂)
    (h₂₃ : RowKept id db₂ db₃) : RowKept id db₁ db₃ := by
  intro c hc
  obtain ⟨c₂, hc₂, hle₂, written₂, hpatches₂, hconfig₂⟩ := h₁₂ c hc
  obtain ⟨c₃, hc₃, hle₃, written₃, hpatches₃, hconfig₃⟩ := h₂₃ c₂ hc₂
  refine ⟨c₃, hc₃, hle₂.trans hle₃, written₂ ++ written₃, ?_, ?_⟩
  · rw [hpatches₃, hpatches₂, List.append_assoc]
  · rw [hconfig₃, hconfig₂, List.foldl_append]

theorem spread_congr {read stored patch : Config}
    (h : ∀ key, patch key = none → read key = stored key) : read.spread patch = stored.spread patch := by
  funext key
  rcases hkey : patch key with _ | value
  · rw [Config.spread_of_none hkey, Config.spread_of_none hkey, h key hkey]
  · rw [Config.spread_of_some hkey, Config.spread_of_some hkey]

theorem saveFinished_config (job : SyncJob) (read c : AmoConnection) (syncStartedAt finishedAt : ℤ)
    (grouped : Bool) : (saveFinished job read syncStartedAt finishedAt grouped c).config = c.config := by
  unfold saveFinished
  split_ifs <;> rfl

theorem saveFinished_full {job : SyncJob} {read c : AmoConnection} {syncStartedAt finishedAt : ℤ}
    {grouped : Bool} (h : if job.type = .full then ∀ t, c.lastFullSyncAt = some t → t ≤ finishedAt
      else c.lastFullSyncAt = read.lastFullSyncAt) :
    LeTime c.lastFullSyncAt
      (saveFinished job read syncStartedAt finishedAt grouped c).lastFullSyncAt := by
  unfold saveFinished
  by_cases hfull : job.type = .full
  · rw [if_pos hfull] at h
    rw [if_neg (by simp [hfull]), if_pos hfull]
    exact fun t ht => ⟨finishedAt, rfl, h t ht⟩
  · rw [if_neg hfull] at h
    rw [if_neg hfull, h]
    split_ifs <;> exact LeTime.refl _

/-- One step that meets the condition. -/
theorem rowKept_step {w w' : World SyncDb SyncProgram} {a : ℕ × SyncAction}
    (hG : NothingInBetween w a) (h : World.step (syncAct env) w a = some w') (id : String) :
    RowKept id w.store w'.store := by
  obtain ⟨i, action⟩ := a
  obtain ⟨db', program', hact, rfl⟩ := World.step_eq_some.1 h
  intro c hc
  obtain ⟨c', hc', hchange⟩ := syncAct_connection hact hc
  refine ⟨c', hc', ?_⟩
  generalize hprogram : w.locals i = program at hact hchange
  cases hchange with
  | kept hconfig hfull hpatches =>
    exact ⟨hfull ▸ LeTime.refl _, [], by simp [hpatches], hconfig⟩
  | patched hwriting hrow hpatches =>
    subst hrow
    refine ⟨LeTime.refl _, [_], hpatches, ?_⟩
    unfold NothingInBetween at hG
    rcases writing_eq_some hwriting with ⟨data, rfl⟩ | ⟨job, connection, syncStartedAt, rfl, rfl⟩
    · rw [hprogram] at hG
      exact spread_congr (hG c hc)
    · rw [hprogram] at hG
      exact spread_congr (hG c hc)
  | saved hid hrow hpatches =>
    subst hid hrow
    unfold NothingInBetween at hG
    rw [hprogram] at hG
    exact ⟨saveFinished_full (hG c hc), [], by simp [hpatches], saveFinished_config _ _ _ _ _ _⟩

/-- The value that the last patch with a key has given it. -/
theorem foldl_spread_last {pre post : List Config} {patch : Config} {key : String} {value : ConfigValue}
    (hset : patch key = some value) (hlater : ∀ q ∈ post, q key = none) (config : Config) :
    (pre ++ patch :: post).foldl Config.spread config key = some value := by
  rw [List.foldl_append, List.foldl_cons]
  have hrun : ∀ (later : List Config) (c : Config), c key = some value →
      (∀ q ∈ later, q key = none) → later.foldl Config.spread c key = some value := by
    intro later
    induction later with
    | nil => intro c hc _; exact hc
    | cons q later ih =>
      intro c hc hnone
      refine ih _ ?_ fun r hr => hnone r (List.mem_cons_of_mem _ hr)
      rw [Config.spread_of_none (hnone q List.mem_cons_self), hc]
  exact hrun post _ (Config.spread_of_some hset) hlater

/-- **No write is lost.** In a run where what every write carries is what is stored, `lastFullSyncAt`
never decreases, and every key of every patch keeps its value until a later patch sets it again. -/
theorem connection_writes_kept {w w' : World SyncDb SyncProgram}
    (h : Run.ReachableVia (World.step (syncAct env)) NothingInBetween w w') {id : String}
    {c : AmoConnection} (hc : w.store.connections id = some c) :
    ∃ c', w'.store.connections id = some c' ∧ LeTime c.lastFullSyncAt c'.lastFullSyncAt ∧
      ∃ written, w'.store.patches id = w.store.patches id ++ written ∧
        ∀ pre patch post, written = pre ++ patch :: post → ∀ key value, patch key = some value →
          (∀ q ∈ post, q key = none) → c'.config key = some value := by
  have hkept : RowKept id w.store w'.store :=
    h.stable (I := fun _ => True) (R := fun u v => RowKept id u.store v.store) trivial
      (fun u _ => RowKept.refl id u.store) (fun _ _ _ => RowKept.trans)
      fun u a v _ hG huv => ⟨trivial, rowKept_step hG huv id⟩
  obtain ⟨c', hc', hle, written, hpatches, hconfig⟩ := hkept c hc
  refine ⟨c', hc', hle, written, hpatches, ?_⟩
  rintro pre patch post rfl key value hset hlater
  rw [hconfig]
  exact foldl_spread_last hset hlater _

section Sample

/-- The reading of other dates plays no part here. -/
def sampleEnv : SyncEnv := ⟨fun _ => none, {}⟩

/-- The patch of a successful run of the email notes. -/
def emailNotesPatch : Config := .ofFields [("emailNotesSyncedAt", .instant 1_000),
  ("emailNotesSyncError", .null), ("emailNotesSyncErrorAt", .null)]

/-- The patch of a webhook subscription that failed. -/
def webhookErrorPatch : Config := .ofFields [("webhookEnsureError", .text "amoCRM 503"),
  ("webhookEnsureErrorAt", .instant 2_000)]

/-- One connection, no program under way. -/
def sampleWorld : World SyncDb SyncProgram :=
  .start { connections := fun id => if id = "c1" then some sampleConnection else none } .idle

/-- The two patches one after the other. -/
theorem connection_writes_kept_sample :
    ∃ w' c', Run.ReachableVia (World.step (syncAct sampleEnv)) NothingInBetween sampleWorld w' ∧
      w'.store.connections "c1" = some c' ∧
      LeTime sampleConnection.lastFullSyncAt c'.lastFullSyncAt ∧
      w'.store.patches "c1" = [emailNotesPatch, webhookErrorPatch] := by
  have hread : ∀ {c d : AmoConnection} {patch : Config} {key : String},
      some c = some d → patch key = none → c.config key = d.config key := by
    rintro c _ patch key ⟨rfl⟩ _
    rfl
  have hrun : ∃ w', Run.ReachableVia (World.step (syncAct sampleEnv)) NothingInBetween sampleWorld w' ∧
      w'.store.patches "c1" = [emailNotesPatch, webhookErrorPatch] := by
    refine ⟨_, ((Run.ReachableVia.single (a := (0, .readConfig "c1" emailNotesPatch {})) ?_ rfl).trans
      (.single (a := (0, .writeConfig)) ?_ rfl)).trans
      ((Run.ReachableVia.single (a := (1, .readConfig "c1" webhookErrorPatch {})) ?_ rfl).trans
      (.single (a := (1, .writeConfig)) ?_ rfl)), rfl⟩
    · trivial
    · exact fun c hc key hkey => hread hc hkey
    · trivial
    · exact fun c hc key hkey => hread hc hkey
  obtain ⟨w', hreach, hpatches⟩ := hrun
  obtain ⟨c', hc', hle, -⟩ := connection_writes_kept hreach
    (rfl : sampleWorld.store.connections "c1" = some sampleConnection)
  exact ⟨w', c', hreach, hc', hle, hpatches⟩

/-- Both programs read the configuration before either writes it: the second write takes the keys of
the first patch away again, although the second patch does not set them. -/
theorem overlapping_patch_lost :
    ∃ w' c', Run.Reachable (World.step (syncAct sampleEnv)) sampleWorld w' ∧
      w'.store.connections "c1" = some c' ∧
      w'.store.patches "c1" = [emailNotesPatch, webhookErrorPatch] ∧
      (∀ key, emailNotesPatch key = none ∨ webhookErrorPatch key = none) ∧
      emailNotesPatch "emailNotesSyncedAt" = some (.instant 1_000) ∧
      c'.config "emailNotesSyncedAt" = none := by
  have hrun : Run.run (World.step (syncAct sampleEnv)) sampleWorld
      [(0, .readConfig "c1" emailNotesPatch {}), (1, .readConfig "c1" webhookErrorPatch {}),
        (0, .writeConfig), (1, .writeConfig)] = some _ := rfl
  refine ⟨_, _, Run.reachable_of_run hrun, rfl, rfl, fun key => ?_, rfl, rfl⟩
  unfold emailNotesPatch webhookErrorPatch Config.ofFields
  by_cases herror : key = "webhookEnsureError"
  · subst herror
    exact Or.inl rfl
  by_cases herrorAt : key = "webhookEnsureErrorAt"
  · subst herrorAt
    exact Or.inl rfl
  · refine Or.inr ?_
    simp [List.lookup, beq_false_of_ne herror, beq_false_of_ne herrorAt]

end Sample

end AmoAnalytics.Amo
