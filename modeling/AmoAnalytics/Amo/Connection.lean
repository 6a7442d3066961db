import AmoAnalytics.CrmControl.Deadline

/-!
# The amoCRM connection

The row of `AmoConnection` as the synchronisation service reads and writes it, its JSON column
`config`, and the settings that bound a reconcile window. `updateConnectionConfig` is a read of the
column followed by a write of the whole column; the two statements are kept apart here, because
another process may act between them.
-/

namespace AmoAnalytics.Amo

open CrmControl (Json)

/-! ## The configuration column -/

/-- A value of the configuration. `instant` is the text that `toISOString` gives for a time. -/
inductive ConfigValue
  | instant (time : ℤ)
  | json (value : Json)

def ConfigValue.null : ConfigValue := .json .null

def ConfigValue.text (value : String) : ConfigValue := .json (.str value)

/-- A JSON object by its fields. -/
abbrev Config := String → Option ConfigValue

namespace Config

/-- An object literal. -/
def ofFields (fields : List (String × ConfigValue)) : Config := fun key => fields.lookup key

/-- `{ ...config, ...patch }`. -/
def spread (config patch : Config) : Config := fun key => (patch key).or (config key)

theorem spread_of_none {config patch : Config} {key : String} (h : patch key = none) :
    config.spread patch key = config key := by
  rw [spread, h, Option.none_or]

theorem spread_of_some {config patch : Config} {key : String} {value : ConfigValue}
    (h : patch key = some value) : config.spread patch key = some value := by
  rw [spread, h, Option.some_or]

end Config

/-- `parseConfigDate`: the time of a text that `new Date` reads. -/
def parseConfigDate (newDate : String → Option ℤ) : Option ConfigValue → Option ℤ
  | some (.instant time) => some time
  | some (.json (.str raw)) => newDate raw
  | _ => none

/-! ## The row -/

inductive ConnectionStatus
  | active
  | inactive
  | error
  | syncing
  deriving DecidableEq

/-- `AmoCredentials`. -/
structure AmoCredentials where
  accessToken : String
  refreshToken : String
  expiresAt : ℤ
  deriving DecidableEq

/-- `AmoConnection`; the credentials are stored encrypted, and decrypting gives them back. -/
structure AmoConnection where
  id : String
  credentials : AmoCredentials
  status : ConnectionStatus := .inactive
  lastFullSyncAt : Option ℤ := none
  lastIncrementalSyncAt : Option ℤ := none
  lastPullSyncAt : Option ℤ := none
  lastReconcileAt : Option ℤ := none
  lastWebhookAppliedAt : Option ℤ := none
  lastError : Option String := none
  config : Config := fun _ => none

/-- The other columns that `updateConnectionConfig` may write. -/
structure ConnectionData where
  status : Option ConnectionStatus := none
  lastError : Option (Option String) := none
  lastReconcileAt : Option (Option ℤ) := none

namespace AmoConnection

/-- The write of `updateConnectionConfig`: the whole column becomes the configuration read before,
with the patch over it. -/
def writeConfig (connection : AmoConnection) (read patch : Config) (data : ConnectionData) :
    AmoConnection :=
  { connection with
    status := data.status.getD connection.status
    lastError := data.lastError.getD connection.lastError
    lastReconcileAt := data.lastReconcileAt.getD connection.lastReconcileAt
    config := read.spread patch }

/-- `updateConnectionConfig` with nothing in between. -/
def updateConfig (connection : AmoConnection) (patch : Config) (data : ConnectionData := {}) :
    AmoConnection :=
  connection.writeConfig connection.config patch data

@[simp] theorem updateConfig_config (connection : AmoConnection) (patch : Config)
    (data : ConnectionData) :
    (connection.updateConfig patch data).config = connection.config.spread patch :=
  rfl

/-- The stored cursor of the reconcile. -/
def recentReconcileAt (newDate : String → Option ℤ) (connection : AmoConnection) : Option ℤ :=
  parseConfigDate newDate (connection.config "recentReconcileAt")

end AmoConnection

/-! ## Settings -/

/-- A setting in minutes: the parsed number when it is set, finite and in range, at most `bound`. -/
def minutesSetting (parsed : Option ℚ) (accepts : ℚ → Bool) (bound fallback : ℚ) : ℚ :=
  match parsed with
  | some minutes => if accepts minutes then min bound minutes else fallback
  | none => fallback

def getRecentReconcileLookbackMinutes (parsed : Option ℚ) : ℚ :=
  minutesSetting parsed (fun minutes => 0 < minutes) 10_080 30

def getRecentReconcileOverlapMinutes (parsed : Option ℚ) : ℚ :=
  minutesSetting parsed (fun minutes => 0 ≤ minutes) 60 2

/-- A setting lies where its bound, its default and every accepted number lie. -/
theorem minutesSetting_mem {parsed : Option ℚ} {accepts : ℚ → Bool} {bound fallback : ℚ} {P : ℚ → Prop}
    (haccepts : ∀ minutes, accepts minutes = true → P minutes) (hbound : P bound)
    (hfallback : P fallback) : P (minutesSetting parsed accepts bound fallback) := by
  rcases parsed with _ | minutes
  · exact hfallback
  · rw [minutesSetting]
    by_cases h : accepts minutes = true
    · rw [if_pos h]
      rcases min_choice bound minutes with hmin | hmin
      · rwa [hmin]
      · rw [hmin]
        exact haccepts minutes h
    · rw [if_neg h]
      exact hfallback

theorem lookbackMinutes_pos (parsed : Option ℚ) : 0 < getRecentReconcileLookbackMinutes parsed :=
  minutesSetting_mem (P := fun minutes => 0 < minutes) (fun _ h => of_decide_eq_true h) (by norm_num)
    (by norm_num)

theorem overlapMinutes_nonneg (parsed : Option ℚ) : 0 ≤ getRecentReconcileOverlapMinutes parsed :=
  minutesSetting_mem (P := fun minutes => 0 ≤ minutes) (fun _ h => of_decide_eq_true h) (by norm_num)
    (by norm_num)

end AmoAnalytics.Amo
