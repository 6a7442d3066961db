import AmoAnalytics.Quality.IncidentLifecycle

/-!
# Notifications of incidents

`PlatformSchedulerService.processQualityNotifications` sends the incidents that are due to the chosen
administrators. `TelegramService` records every attempt under an event key and sends nothing under a key that
is recorded; `markNotified` counts a notification that reached somebody.
-/

namespace AmoAnalytics.Platform

open Quality

/-! ## Tables -/

/-- The text `data-quality:<id>:<status>:<count>:<user>` of an event. The ids are UUIDs, so the text
determines its parts. -/
structure EventKey where
  incidentId : ℕ
  status : IncidentStatus
  notificationCount : ℕ
  userId : String
  deriving DecidableEq

inductive DeliveryStatus
  | sent
  | skipped
  | error
  deriving DecidableEq

/-- `NotificationDelivery`. -/
structure Delivery where
  eventKey : EventKey
  status : DeliveryStatus
  deriving DecidableEq

/-- `TelegramSettings.quality`. -/
structure QualitySettings where
  enabled : Bool
  recipientIds : List String
  repeatMinutes : ℤ
  includeRecovery : Bool

structure TelegramSettings where
  enabled : Bool
  quality : QualitySettings
  resumedAt : Option ℤ

/-- A user; `isAdmin` for the role `ADMIN` or the business role `OWNER`. -/
structure PlatformUser where
  id : String
  isActive : Bool
  isAdmin : Bool

/-- The tables and the time. No statement reads `requests`, the keys under which Telegram was asked to send. -/
structure NotifyDb where
  quality : QualityDb := {}
  deliveries : List Delivery := []
  settings : Option TelegramSettings := none
  users : List PlatformUser := []
  /-- The active flag of the Telegram account of a user. -/
  accounts : String → Option Bool := fun _ => none
  botToken : Bool := false
  now : ℤ := 0
  requests : List EventKey := []

/-- What Telegram does with a request. -/
inductive Outcome
  | delivered
  | paused
  | failed
  deriving DecidableEq

variable (db : NotifyDb)

/-! ## What is due -/

/-- The filter of `notificationsDue`. -/
def TelegramSettings.due (settings : TelegramSettings) (now : ℤ) (incident : Incident) : Bool :=
  match incident.status with
  | .resolved => settings.quality.includeRecovery && incident.resolvedNotifiedAt.isNone &&
      settings.resumedAt.all fun resumedAt => incident.resolvedAt.any (resumedAt ≤ ·)
  | .open => incident.lastNotifiedAt.all fun at_ =>
      (if settings.quality.repeatMinutes = 0 then 30 else settings.quality.repeatMinutes) * 60_000 ≤ now - at_

/-- The settings under which incidents are notified at all. -/
def NotifyDb.notifying : Option TelegramSettings :=
  db.settings.filter fun settings => settings.enabled && settings.quality.enabled

/-- The incidents that are due, in the order of their first detection. -/
def NotifyDb.dueIncidents : List Incident :=
  match db.notifying with
  | some settings => (db.quality.incidents.filter fun incident =>
      incident.confirmedAt.isSome && settings.due db.now incident).insertionSort
        (fun a b => a.firstDetectedAt ≤ b.firstDetectedAt)
  | none => []

/-- The chosen administrators. -/
def NotifyDb.ownerUserIds : List String :=
  match db.notifying with
  | some settings => (db.users.filter fun user =>
      settings.quality.recipientIds.contains user.id && user.isActive && user.isAdmin).map (·.id)
  | none => []

/-! ## Sending -/

def eventKey (incident : Incident) (userId : String) : EventKey :=
  ⟨incident.id, incident.status, incident.notificationCount, userId⟩

def NotifyDb.recorded (key : EventKey) : Bool := db.deliveries.any (·.eventKey = key)

/-- The status that an attempt is recorded with. -/
def NotifyDb.attempt (outcome : EventKey → Outcome) (key : EventKey) : DeliveryStatus :=
  if db.accounts key.userId ≠ some true then .skipped
  else if !db.botToken then .error
  else match outcome key with
    | .delivered => .sent
    | .paused => .skipped
    | .failed => .error

/-- Telegram is asked to send. -/
def NotifyDb.asks (key : EventKey) : Bool := db.accounts key.userId = some true && db.botToken

/-- `sendDirectMessageToUser`: the delivery that is recorded already, or an attempt. -/
def NotifyDb.sendDirectMessageToUser (outcome : EventKey → Outcome) (key : EventKey) :
    NotifyDb × DeliveryStatus :=
  match db.deliveries.find? (·.eventKey = key) with
  | some existing => (db, existing.status)
  | none => ({ db with
      deliveries := db.deliveries ++ [⟨key, db.attempt outcome key⟩]
      requests := if db.asks key then db.requests ++ [key] else db.requests }, db.attempt outcome key)

/-- `sendMessageToUsers`, each user once, and whether a delivery has the status `SENT`. -/
def NotifyDb.sendMessageToUsers (outcome : EventKey → Outcome) (incident : Incident) (users : List String) :
    NotifyDb × Bool :=
  (users.filter (· ≠ "")).dedup.foldl (fun acc userId =>
    let sent := acc.1.sendDirectMessageToUser outcome (eventKey incident userId)
    (sent.1, acc.2 || sent.2 = .sent)) (db, false)

def Incident.notified (resolved : Bool) (now : ℤ) (row : Incident) : Incident :=
  if resolved then { row with resolvedNotifiedAt := some now }
  else { row with lastNotifiedAt := some now, notificationCount := row.notificationCount + 1 }

/-- `markNotified`. -/
def NotifyDb.markNotified (incident : Incident) : NotifyDb :=
  { db with quality := { db.quality with
    incidents := Table.updateWhere (·.id = incident.id)
      (Incident.notified (incident.status = .resolved) db.now) db.quality.incidents } }

/-- One incident of a run. -/
def NotifyDb.notify (outcome : EventKey → Outcome) (users : List String) (db : NotifyDb) (incident : Incident) :
    NotifyDb :=
  let sent := db.sendMessageToUsers outcome incident users
  if sent.2 then sent.1.markNotified incident else sent.1

/-- `processQualityNotifications`. -/
def NotifyDb.processQualityNotifications (outcome : EventKey → Outcome) : NotifyDb :=
  db.dueIncidents.foldl (NotifyDb.notify outcome db.ownerUserIds) db

/-! ## Histories -/

inductive NotifyAction
  | evaluate (evaluation : Evaluation)
  | settings (settings : TelegramSettings)
  | users (users : List PlatformUser)
  | account (userId : String) (isActive : Option Bool)
  | token (botToken : Bool)
  | tick (now : ℤ)
  | run (outcome : EventKey → Outcome)

/-- Evaluations, changes of the settings and runs of the notifications, in any order. -/
def notifyStep (release : Release) (db : NotifyDb) : NotifyAction → Option NotifyDb
  | .evaluate evaluation => (qualityStep release db.quality evaluation).map fun quality => { db with quality }
  | .settings settings => some { db with settings := some settings }
  | .users users => some { db with users }
  | .account userId isActive =>
    some { db with accounts := fun u => if u = userId then isActive else db.accounts u }
  | .token botToken => some { db with botToken }
  | .tick now => some { db with now }
  | .run outcome => some (db.processQualityNotifications outcome)

end AmoAnalytics.Platform
