import AmoAnalytics.Common.BusinessTime
import AmoAnalytics.Lib.Run
import AmoAnalytics.Platform.CrmDeliveries

/-!
# The reminder about an assigned lead

`notifyAssignedLeadManagerAlerts`: the manager of a deal is told about the lead, and reminded of it while the task is
open. The second step looks for the delivery of the first under the key of the event; a first ping that goes directly
to the responsible manager is recorded under another key, and the chain ends there.
-/

namespace AmoAnalytics.Platform.CrmEvents

open Common CountedTime JsText
open Reports.ForecastFeatures (trimmed)

/-! ## `crm-event-notifications.service.ts` -/

/-- A task that is not completed. `rawCreatedAt` is the `created_at` of its source, in seconds. -/
structure Task where
  id : String
  responsibleId : Option JsString
  isCompleted : Bool
  createdAt : ℤ
  rawCreatedAt : Option ℤ

structure StageMove where
  toStageId : String
  movedAt : ℤ

/-- A deal with its activity. -/
structure NotificationDeal where
  id : String
  createdAt : ℤ
  stageId : String
  responsibleId : Option JsString
  stageHistory : List StageMove
  tasks : List Task

def taskCreatedAt (task : Task) : ℤ :=
  match task.rawCreatedAt.filter (· ≠ 0) with
  | some seconds => seconds * 1000
  | none => task.createdAt

def currentStageEnteredAt (deal : NotificationDeal) : ℤ :=
  (((deal.stageHistory.filter (·.toStageId = deal.stageId)).map StageMove.movedAt).max?).getD deal.createdAt

def assignedLeadTriggerAt (deal : NotificationDeal) (task : Task) : ℤ :=
  max deal.createdAt (max (currentStageEnteredAt deal) (taskCreatedAt task))

structure PingSchedule where
  firstPingAt : ℤ
  reminderPingAt : ℤ

structure PingParameters where
  assignedLeadReminderMinutes : ℤ
  offHoursFirstPingHour : ℤ
  offHoursFirstPingMinute : ℤ

def isMoscowWorkingTime (offset : ℤ → ℤ) (date : ℤ) : Bool :=
  let parts := moscowParts offset date
  let minutes := parts.hour * 60 + parts.minute
  isMoscowBusinessDay parts && moscowWorkdayStartHour * 60 ≤ minutes && minutes < moscowWorkdayEndHour * 60

def assignedLeadPingSchedule (offset : ℤ → ℤ) (parameters : PingParameters) (triggerAt : ℤ) (fuel : ℕ) :
    Option PingSchedule :=
  if isMoscowWorkingTime offset triggerAt then
    (addMoscowBusinessTime offset triggerAt (parameters.assignedLeadReminderMinutes * 60_000) fuel).map
      fun reminderPingAt => ⟨triggerAt, reminderPingAt⟩
  else
    let parts := moscowParts offset (nextMoscowBusinessStart offset triggerAt)
    let firstPingAt := moscowDate parts.year parts.month parts.day parameters.offHoursFirstPingHour
      parameters.offHoursFirstPingMinute 0 0
    some ⟨firstPingAt, firstPingAt + parameters.assignedLeadReminderMinutes * 60_000⟩

inductive Ping
  | first
  | reminder
deriving DecidableEq

def Ping.event (dealId taskId : String) : Ping → CrmEvent
  | .first => .assignedLeadNew dealId taskId
  | .reminder => .assignedLead10m dealId taskId

def Ping.eventType : Ping → EventType
  | .first => .amo_new_assigned_lead
  | .reminder => .amo_assigned_lead_10m

/-- The task of the responsible manager. -/
def managerTask (deal : NotificationDeal) : Option Task :=
  deal.tasks.find? fun task => task.responsibleId = deal.responsibleId && !task.isCompleted

/-- One ping: in the configured mode, or to the manager. Whether it reached somebody is part of the answer. -/
def sendPing (env : Surroundings) (db : List Delivery) (ping : Ping) (dealId taskId : String)
    (responsibleId : JsString) : Option (List Delivery × Bool) :=
  let event := ping.event dealId taskId
  let payload : Payload := { managerCrmUserId := some responsibleId, dealId := some dealId }
  (sendConfiguredNotification env db ping.eventType payload event).map fun configured =>
    match configured.2 with
    | some statuses => (configured.1, statuses.contains .sent)
    | none =>
      let sent := sendDirectMessageToCrmUser env configured.1 responsibleId (.plain event)
      (sent.1, sent.2 = .sent)

/-- What a deal gives in a scan: the ping that is attempted, and whether it reached somebody. -/
structure LeadResult where
  attempted : Option (Ping × String × String)
  sent : Bool

def notifyAssignedLeadManagerAlerts (env : Surroundings) (db : List Delivery) (schedule : PingSchedule)
    (deal : NotificationDeal) (now : ℤ) : Option (List Delivery × LeadResult) :=
  match deal.responsibleId.filter (· ≠ []), managerTask deal with
  | some responsibleId, some task =>
    let firstRecorded := deliveryExists db (.assignedLeadNew deal.id task.id)
    if schedule.firstPingAt ≤ now ∧ firstRecorded = false then
      (sendPing env db .first deal.id task.id responsibleId).map fun sent =>
        (sent.1, ⟨some (.first, deal.id, task.id), sent.2⟩)
    else if schedule.reminderPingAt ≤ now ∧ firstRecorded = true ∧
        deliveryExists db (.assignedLead10m deal.id task.id) = false then
      (sendPing env db .reminder deal.id task.id responsibleId).map fun sent =>
        (sent.1, ⟨some (.reminder, deal.id, task.id), sent.2⟩)
    else some (db, ⟨none, false⟩)
  | _, _ => some (db, ⟨none, false⟩)

/-! ## Histories -/

/-- The scan of a deal, with the schedule that its times give. -/
structure LeadTick (offset : ℤ → ℤ) where
  env : Surroundings
  deal : NotificationDeal
  now : ℤ
  parameters : PingParameters
  schedule : PingSchedule
  scheduled : ∀ task, managerTask deal = some task →
    Yields (assignedLeadPingSchedule offset parameters (assignedLeadTriggerAt deal task)) schedule

/-- The deliveries, and the pings that were attempted. No statement reads the attempts. -/
structure LeadDb where
  deliveries : List Delivery := []
  attempts : List (Ping × String × String) := []

variable (offset : ℤ → ℤ)

def leadStep (db : LeadDb) (tick : LeadTick offset) : Option LeadDb :=
  (notifyAssignedLeadManagerAlerts tick.env db.deliveries tick.schedule tick.deal tick.now).map fun scanned =>
    ⟨scanned.1, scanned.2.attempted.toList ++ db.attempts⟩

/-- The templates stay as they are. -/
def Configured (templates : EventType → Option NotificationTemplate) (_ : LeadDb) (tick : LeadTick offset) : Prop :=
  tick.env.templates = templates

/-- The deliveries of an event that reached somebody. -/
def delivered (db : List Delivery) (event : CrmEvent) : List Delivery :=
  db.filter fun delivery => delivery.eventKey.event = event && delivery.status = .sent

/-- The chain of the two pings under some templates. -/
structure ReminderChain (templates : EventType → Option NotificationTemplate) : Prop where
  /-- After a first ping was delivered and the time of the reminder has come, a scan attempts the reminder, unless it
  was attempted before. -/
  attempted : ∀ db, Run.ReachableVia (leadStep offset) (Configured offset templates) {} db →
    ∀ tick : LeadTick offset, tick.env.templates = templates → ∀ responsibleId task,
    tick.deal.responsibleId = some responsibleId → responsibleId ≠ [] → managerTask tick.deal = some task →
    delivered db.deliveries (.assignedLeadNew tick.deal.id task.id) ≠ [] → tick.schedule.reminderPingAt ≤ tick.now →
    ∃ db', leadStep offset db tick = some db' ∧ (.reminder, tick.deal.id, task.id) ∈ db'.attempts
  /-- At most one reminder is delivered. -/
  once : ∀ db, Run.ReachableVia (leadStep offset) (Configured offset templates) {} db → ∀ dealId taskId,
    (delivered db.deliveries (.assignedLead10m dealId taskId)).length ≤ 1

/-! ## Pings -/

/-- The mode of a ping. -/
def pingMode (templates : EventType → Option NotificationTemplate) (ping : Ping) : TelegramDeliveryMode :=
  (configuredTelegramDelivery (templates ping.eventType)).mode

/-- The key that a ping is recorded under. -/
def pingKey (templates : EventType → Option NotificationTemplate) (ping : Ping) (dealId taskId : String) :
    DeliveryKey :=
  if pingMode templates ping = .direct_responsible then .directResponsible (ping.event dealId taskId)
  else .plain (ping.event dealId taskId)

theorem pingKey_event (templates : EventType → Option NotificationTemplate) (ping : Ping) (dealId taskId : String) :
    (pingKey templates ping dealId taskId).event = ping.event dealId taskId := by
  unfold pingKey
  split_ifs <;> rfl

theorem pingKey_plain {templates : EventType → Option NotificationTemplate} {ping : Ping}
    (h : pingMode templates ping ≠ .direct_responsible) (dealId taskId : String) :
    pingKey templates ping dealId taskId = .plain (ping.event dealId taskId) := if_neg h

theorem event_inj {ping ping' : Ping} {dealId taskId dealId' taskId' : String}
    (h : ping.event dealId taskId = ping'.event dealId' taskId') :
    ping = ping' ∧ dealId = dealId' ∧ taskId = taskId' := by
  cases ping <;> cases ping' <;> cases h <;> exact ⟨rfl, rfl, rfl⟩

/-- A ping is one of the personal events, so it is not sent, goes to the responsible manager in that mode, or goes to
the manager under the key of the event. -/
theorem sendPing_spec (env : Surroundings) (db : List Delivery) (ping : Ping) (dealId taskId : String)
    (responsibleId : JsString) : ∃ sent, sendPing env db ping dealId taskId responsibleId = some sent ∧
      (sent.1 = db ∨ ∃ status, sent.1 =
        (sendUnlessRecorded db (pingKey env.templates ping dealId taskId) status).1) := by
  have hpersonal : ping.eventType ∈ PERSONAL_TELEGRAM_EVENTS := by cases ping <;> decide
  unfold sendPing sendConfiguredNotification telegramDeliveryModeAllowed
  simp only [if_pos hpersonal]
  cases hmode : (configuredTelegramDelivery (env.templates ping.eventType)).mode with
  | direct_responsible =>
    have hkey : pingKey env.templates ping dealId taskId = .directResponsible (ping.event dealId taskId) :=
      if_pos hmode
    cases hid : payloadCrmUserId { managerCrmUserId := some responsibleId, dealId := some dealId } with
    | none => exact ⟨_, rfl, .inl rfl⟩
    | some id => exact ⟨_, rfl, .inr ⟨_, by rw [hkey]; rfl⟩⟩
  | disabled => exact ⟨_, rfl, .inl rfl⟩
  | system =>
    have hkey := pingKey_plain (show pingMode env.templates ping ≠ _ by rw [pingMode, hmode]; decide) dealId taskId
    exact ⟨_, rfl, .inr ⟨_, by rw [hkey]; rfl⟩⟩
  | selected =>
    have hkey := pingKey_plain (show pingMode env.templates ping ≠ _ by rw [pingMode, hmode]; decide) dealId taskId
    exact ⟨_, rfl, .inr ⟨_, by rw [hkey]; rfl⟩⟩
  | group =>
    have hkey := pingKey_plain (show pingMode env.templates ping ≠ _ by rw [pingMode, hmode]; decide) dealId taskId
    exact ⟨_, rfl, .inr ⟨_, by rw [hkey]; rfl⟩⟩
  | all_connected =>
    have hkey := pingKey_plain (show pingMode env.templates ping ≠ _ by rw [pingMode, hmode]; decide) dealId taskId
    exact ⟨_, rfl, .inr ⟨_, by rw [hkey]; rfl⟩⟩

/-! ## Scans -/

section Scans

variable {offset : ℤ → ℤ} {templates : EventType → Option NotificationTemplate} {db db' : LeadDb}
  {tick : LeadTick offset}

/-- A scan that attempts a ping. -/
def attempt (tick : LeadTick offset) (db : LeadDb) (ping : Ping) (responsibleId : JsString) (task : Task) :
    Option LeadDb :=
  (sendPing tick.env db.deliveries ping tick.deal.id task.id responsibleId).map fun sent =>
    ⟨sent.1, (ping, tick.deal.id, task.id) :: db.attempts⟩

/-- What a scan of a deal with a task of its manager does. -/
theorem leadStep_eq {responsibleId : JsString} {task : Task}
    (hresponsible : tick.deal.responsibleId = some responsibleId)
    (hid : responsibleId ≠ []) (htask : managerTask tick.deal = some task) : leadStep offset db tick =
      if tick.schedule.firstPingAt ≤ tick.now ∧ deliveryExists db.deliveries
        (.assignedLeadNew tick.deal.id task.id) = false then attempt tick db .first responsibleId task
      else if tick.schedule.reminderPingAt ≤ tick.now ∧ deliveryExists db.deliveries
          (.assignedLeadNew tick.deal.id task.id) = true ∧ deliveryExists db.deliveries
          (.assignedLead10m tick.deal.id task.id) = false then attempt tick db .reminder responsibleId task
      else some db := by
  unfold leadStep notifyAssignedLeadManagerAlerts attempt
  rw [hresponsible, Option.filter_some, if_pos (decide_eq_true hid), htask]
  dsimp only
  split_ifs
  · rw [Option.map_map]
    rfl
  · rw [Option.map_map]
    rfl
  · rfl

/-- A scan of a deal without a manager, or without a task of the manager, does nothing. -/
theorem leadStep_idle (h : tick.deal.responsibleId.filter (· ≠ []) = none ∨ managerTask tick.deal = none) :
    leadStep offset db tick = some db := by
  unfold leadStep notifyAssignedLeadManagerAlerts
  rcases h with h | h
  · rw [h]
    rfl
  · rw [h]
    cases tick.deal.responsibleId.filter (· ≠ []) <;> rfl

/-- What is recorded, is a ping that was attempted, under the key of its mode. -/
structure LeadInv (templates : EventType → Option NotificationTemplate) (db : LeadDb) : Prop where
  keys : (db.deliveries.map Delivery.eventKey).Nodup
  pinged : ∀ delivery ∈ db.deliveries, ∃ ping dealId taskId,
    delivery.eventKey = pingKey templates ping dealId taskId ∧ (ping, dealId, taskId) ∈ db.attempts

theorem LeadInv.attempt (h : LeadInv templates db) (htick : tick.env.templates = templates) {ping : Ping}
    {responsibleId : JsString} {task : Task} (hstep : attempt tick db ping responsibleId task = some db') :
    LeadInv templates db' := by
  obtain ⟨sent, hsent, heffect⟩ := sendPing_spec tick.env db.deliveries ping tick.deal.id task.id responsibleId
  unfold CrmEvents.attempt at hstep
  rw [hsent] at hstep
  obtain rfl := Option.some.inj hstep
  rw [htick] at heffect
  rcases heffect with hsame | ⟨status, hsame⟩
  · refine ⟨?_, fun delivery hmem => ?_⟩
    · dsimp only
      rw [hsame]
      exact h.keys
    · obtain ⟨ping', dealId, taskId, hkey, hattempt⟩ := h.pinged delivery (hsame ▸ hmem)
      exact ⟨ping', dealId, taskId, hkey, List.mem_cons_of_mem _ hattempt⟩
  · refine ⟨?_, fun delivery hmem => ?_⟩
    · dsimp only
      rw [hsame]
      exact sendUnlessRecorded_nodup h.keys
    · change delivery ∈ sent.1 at hmem
      rw [hsame] at hmem
      rcases mem_sendUnlessRecorded hmem with hold | rfl
      · obtain ⟨ping', dealId, taskId, hkey, hattempt⟩ := h.pinged delivery hold
        exact ⟨ping', dealId, taskId, hkey, List.mem_cons_of_mem _ hattempt⟩
      · exact ⟨ping, tick.deal.id, task.id, rfl, List.mem_cons_self⟩

theorem LeadInv.step (h : LeadInv templates db) (htick : tick.env.templates = templates)
    (hstep : leadStep offset db tick = some db') : LeadInv templates db' := by
  cases hresponsible : tick.deal.responsibleId.filter (· ≠ []) with
  | none =>
    rw [leadStep_idle (.inl hresponsible)] at hstep
    exact Option.some.inj hstep ▸ h
  | some responsibleId =>
    obtain ⟨hsome, hid⟩ := Option.filter_eq_some_iff.1 hresponsible
    cases htask : managerTask tick.deal with
    | none =>
      rw [leadStep_idle (.inr htask)] at hstep
      exact Option.some.inj hstep ▸ h
    | some task =>
      rw [leadStep_eq hsome (of_decide_eq_true hid) htask] at hstep
      split_ifs at hstep
      · exact h.attempt htick hstep
      · exact h.attempt htick hstep
      · exact Option.some.inj hstep ▸ h

theorem leadInv_of_reachable (h : Run.ReachableVia (leadStep offset) (Configured offset templates) {} db) :
    LeadInv templates db :=
  h.invariant ⟨List.nodup_nil, fun _ hmem => absurd hmem List.not_mem_nil⟩ fun _ _ _ hinv htick hstep =>
    hinv.step htick hstep

/-! ## The chain -/

/-- A delivery of the event of a ping is of that ping. -/
theorem LeadInv.key_of_event (h : LeadInv templates db) (ping : Ping) {delivery : Delivery}
    (hmem : delivery ∈ db.deliveries) {dealId taskId : String}
    (hevent : delivery.eventKey.event = ping.event dealId taskId) :
    delivery.eventKey = pingKey templates ping dealId taskId ∧ (ping, dealId, taskId) ∈ db.attempts := by
  obtain ⟨ping', dealId', taskId', hkey, hattempt⟩ := h.pinged delivery hmem
  rw [hkey, pingKey_event] at hevent
  obtain ⟨rfl, rfl, rfl⟩ := event_inj hevent
  exact ⟨hkey, hattempt⟩

theorem LeadInv.once (h : LeadInv templates db) (ping : Ping) (dealId taskId : String) :
    (delivered db.deliveries (ping.event dealId taskId)).length ≤ 1 := by
  have hsame : ∀ delivery ∈ delivered db.deliveries (ping.event dealId taskId),
      delivery.eventKey = pingKey templates ping dealId taskId := fun delivery hmem => by
    obtain ⟨hdelivery, hevent⟩ := List.mem_filter.1 hmem
    exact (h.key_of_event ping hdelivery (of_decide_eq_true (Bool.and_eq_true _ _ ▸ hevent).1)).1
  have hkeys : ((delivered db.deliveries (ping.event dealId taskId)).map Delivery.eventKey).Nodup :=
    h.keys.sublist (List.filter_sublist.map _)
  have hreplicate : (delivered db.deliveries (ping.event dealId taskId)).map Delivery.eventKey =
      List.replicate (delivered db.deliveries (ping.event dealId taskId)).length
        (pingKey templates ping dealId taskId) :=
    List.eq_replicate_iff.2 ⟨List.length_map _, fun key hkey => by
      obtain ⟨delivery, hmem, rfl⟩ := List.mem_map.1 hkey
      exact hsame delivery hmem⟩
  rw [hreplicate] at hkeys
  exact List.nodup_replicate.1 hkeys

/-- In a mode that is not the direct one the chain connects. -/
theorem LeadInv.attempted (h : LeadInv templates db) (hmode : pingMode templates .first ≠ .direct_responsible)
    {responsibleId : JsString} {task : Task} (hresponsible : tick.deal.responsibleId = some responsibleId)
    (hid : responsibleId ≠ []) (htask : managerTask tick.deal = some task)
    (hfirst : delivered db.deliveries (.assignedLeadNew tick.deal.id task.id) ≠ [])
    (hdue : tick.schedule.reminderPingAt ≤ tick.now) :
    ∃ db', leadStep offset db tick = some db' ∧ (.reminder, tick.deal.id, task.id) ∈ db'.attempts := by
  obtain ⟨delivery, hdelivery⟩ := List.exists_mem_of_ne_nil _ hfirst
  obtain ⟨hmem, hevent⟩ := List.mem_filter.1 hdelivery
  obtain ⟨hkey, -⟩ := h.key_of_event .first hmem (of_decide_eq_true (Bool.and_eq_true _ _ ▸ hevent).1)
  rw [pingKey_plain hmode] at hkey
  have hrecorded : deliveryExists db.deliveries (.assignedLeadNew tick.deal.id task.id) = true :=
    findDelivery_isSome.2 (List.mem_map.2 ⟨delivery, hmem, hkey⟩)
  rw [leadStep_eq hresponsible hid htask,
    if_neg fun hnot => Bool.false_ne_true (hnot.2.symm.trans hrecorded)]
  cases hreminded : deliveryExists db.deliveries (.assignedLead10m tick.deal.id task.id) with
  | false =>
    rw [if_pos ⟨hdue, hrecorded, rfl⟩]
    obtain ⟨sent, hsent, -⟩ := sendPing_spec tick.env db.deliveries .reminder tick.deal.id task.id responsibleId
    refine ⟨⟨sent.1, (.reminder, tick.deal.id, task.id) :: db.attempts⟩, ?_, List.mem_cons_self⟩
    unfold CrmEvents.attempt
    rw [hsent]
    rfl
  | true =>
    rw [if_neg fun hnot => nomatch hnot.2.2]
    obtain ⟨reminder, hreminder, heq⟩ := List.mem_map.1 (findDelivery_isSome.1 hreminded)
    refine ⟨db, rfl, (h.key_of_event .reminder hreminder ?_).2⟩
    rw [heq]
    rfl

end Scans

/-! ## The direct mode -/

theorem assignedLeadPingSchedule_yields {offset : ℤ → ℤ} {since : ℤ} (h : FixedFrom offset since)
    (parameters : PingParameters) {triggerAt : ℤ} (htrigger : since ≤ triggerAt) :
    ∃ schedule, Yields (assignedLeadPingSchedule offset parameters triggerAt) schedule := by
  unfold assignedLeadPingSchedule
  by_cases hworking : isMoscowWorkingTime offset triggerAt = true
  · simp only [if_pos hworking]
    rcases le_or_gt (parameters.assignedLeadReminderMinutes * 60_000) 0 with hnone | hpos
    · obtain ⟨reminderPingAt, ⟨n, hn⟩, -⟩ := add_none h htrigger hnone
      exact ⟨_, n, fun fuel hfuel => congrArg _ (hn fuel hfuel)⟩
    · obtain ⟨reminderPingAt, ⟨n, hn⟩, -⟩ := add_yields h htrigger hpos
      exact ⟨_, n, fun fuel hfuel => congrArg _ (hn fuel hfuel)⟩
  · simp only [if_neg hworking]
    exact ⟨_, 0, fun _ _ => rfl⟩

/-- A deal of one manager with one open task. -/
def assignedDeal (createdAt : ℤ) : NotificationDeal where
  id := "deal"
  createdAt
  stageId := "assigned"
  responsibleId := some (js "manager")
  stageHistory := []
  tasks := [⟨"task", some (js "manager"), false, createdAt, none⟩]

/-- Everybody is connected, and Telegram delivers. -/
def reachable (templates : EventType → Option NotificationTemplate) : Surroundings where
  templates
  users := []
  crmUserByExternalId := fun _ => none
  departmentOfDeal := fun _ => none
  userAccount := fun _ => some ⟨"account", true⟩
  crmUserAccount := fun _ => some ⟨"account", true⟩
  connected := []
  groupChats := []
  botToken := true
  outcome := fun _ => .delivered

/-- A scan of the deal after both times of its schedule. -/
def overdueTick {offset : ℤ → ℤ} (templates : EventType → Option NotificationTemplate) (parameters : PingParameters)
    (createdAt : ℤ) (schedule : PingSchedule)
    (h : Yields (assignedLeadPingSchedule offset parameters createdAt) schedule) : LeadTick offset where
  env := reachable templates
  deal := assignedDeal createdAt
  now := max schedule.firstPingAt schedule.reminderPingAt
  parameters
  schedule
  scheduled := fun task htask => by
    obtain rfl := Option.some.inj htask
    have htrigger : assignedLeadTriggerAt (assignedDeal createdAt)
        ⟨"task", some (js "manager"), false, createdAt, none⟩ = createdAt := by
      simp [assignedLeadTriggerAt, currentStageEnteredAt, taskCreatedAt, assignedDeal]
    rwa [htrigger]

/-- A ping in the direct mode is recorded under the key of that mode. -/
theorem sendPing_direct {env : Surroundings} {db : List Delivery} {ping : Ping} {responsibleId : JsString}
    (hmode : pingMode env.templates ping = .direct_responsible)
    (hid : payloadCrmUserId { managerCrmUserId := some responsibleId } = some responsibleId)
      (dealId taskId : String) :
    sendPing env db ping dealId taskId responsibleId =
      let sent := sendDirectMessageToCrmUser env db responsibleId (.directResponsible (ping.event dealId taskId))
      some (sent.1, [sent.2].contains .sent) := by
  have hpersonal : ping.eventType ∈ PERSONAL_TELEGRAM_EVENTS := by cases ping <;> decide
  have hpayload : payloadCrmUserId { managerCrmUserId := some responsibleId, dealId := some dealId } =
      some responsibleId := hid
  unfold pingMode at hmode
  unfold sendPing sendConfiguredNotification telegramDeliveryModeAllowed
  simp only [if_pos hpersonal, hmode, hpayload]
  rfl

/-- In the direct mode every scan repeats the first ping, and the reminder is never attempted. -/
theorem not_attempted {offset : ℤ → ℤ} {since : ℤ} (h : FixedFrom offset since)
    {templates : EventType → Option NotificationTemplate} (hmode : pingMode templates .first = .direct_responsible) :
    ¬ ReminderChain offset templates := by
  obtain ⟨schedule, hschedule⟩ := assignedLeadPingSchedule_yields h ⟨10, 10, 30⟩ le_rfl
  intro hchain
  let task : Task := ⟨"task", some (js "manager"), false, since, none⟩
  let tick : LeadTick offset := overdueTick templates ⟨10, 10, 30⟩ since schedule hschedule
  let ping : Delivery := ⟨.directResponsible (.assignedLeadNew "deal" "task"), .sent⟩
  have hmanager : payloadCrmUserId { managerCrmUserId := some (js "manager") } = some (js "manager") := by decide
  have hscan : ∀ attempts, (∀ deliveries, deliveries = [] ∨ deliveries = [ping] →
      leadStep offset ⟨deliveries, attempts⟩ tick = some ⟨[ping], (.first, "deal", "task") :: attempts⟩) := by
    intro attempts deliveries hdeliveries
    have hunrecorded : deliveryExists deliveries (.assignedLeadNew "deal" "task") = false := by
      rcases hdeliveries with rfl | rfl <;> rfl
    have hstep : leadStep offset ⟨deliveries, attempts⟩ tick = _ := leadStep_eq
      (show tick.deal.responsibleId = some (js "manager") from rfl) (by decide)
      (show managerTask tick.deal = some task from rfl)
    rw [hstep, if_pos ⟨le_max_left _ _, hunrecorded⟩]
    unfold attempt
    rw [show sendPing tick.env _ .first tick.deal.id task.id _ = _ from sendPing_direct hmode hmanager "deal" "task"]
    rcases hdeliveries with rfl | rfl <;> rfl
  have hreach : Run.ReachableVia (leadStep offset) (Configured offset templates) {} ⟨[ping], [(.first, "deal",
    "task")]⟩ :=
    Run.ReachableVia.single (a := tick) rfl (hscan [] [] (.inl rfl))
  obtain ⟨db', hstep, hattempted⟩ := hchain.attempted _ hreach tick rfl (js "manager") task rfl (by decide) rfl
    (List.cons_ne_nil ping []) (le_max_right _ _)
  rw [hscan _ _ (.inr rfl)] at hstep
  obtain rfl := Option.some.inj hstep
  change (Ping.reminder, "deal", "task") ∈ [(Ping.first, "deal", "task"), (Ping.first, "deal", "task")] at hattempted
  revert hattempted
  decide

/-- The template of the first ping names its mode. -/
def templateOf (mode : String) : EventType → Option NotificationTemplate
  | .amo_new_assigned_lead => some ⟨some [⟨some "delivery_mode", some (js mode)⟩], true, []⟩
  | _ => some ⟨none, true, []⟩

end AmoAnalytics.Platform.CrmEvents
