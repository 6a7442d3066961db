import AmoAnalytics.Lib.FirstOfEach
import AmoAnalytics.Platform.QualityNotifications
import AmoAnalytics.Reports.ForecastFeatures

/-!
# Deliveries of amoCRM events

How a notification about amoCRM reaches its recipients: `configuredTelegramDelivery` reads the mode of delivery from
the template of the event, and `sendConfiguredNotification` sends in that mode, each mode under event keys of its own.
Nothing is sent under an event key that is recorded.
-/

namespace AmoAnalytics.Platform.CrmEvents

open FirstOfEach JsText
open Reports.ForecastFeatures (trimmed)

/-! ## Keys and tables -/

inductive EventType
  | amo_new_assigned_lead
  | amo_assigned_lead_10m
  | amo_take_to_work_enabled
  | amo_payment_received
  | amo_task_mass_reschedule
  | amo_csm_task_mass_reschedule
  | amo_deal_mass_move
  | amo_csm_deal_mass_move
  | amo_invoice_no_payment_3d
  | amo_proposal_stale_24h
  | amo_proposal_prepared_stale_2bd
deriving DecidableEq

inductive Team
  | sales
  | csm
deriving DecidableEq

/-- The key of an event, such as `amo:assigned-lead-new:<deal>:<task>`. Ids have no colon, so the text determines its
parts. -/
inductive CrmEvent
  | assignedLeadNew (dealId taskId : String)
  | assignedLead10m (dealId taskId : String)
  | taskMassMove (team : Team) (createdBy : String) (bucket : ℤ)
  | dealMassMove (team : Team) (createdBy : String) (bucket : ℤ)
  | invoiceNoPayment3d (dealId stageId : String)
  | proposalStale24h (dealId stageId : String)
  | proposalPreparedStale2bd (dealId stageId : String)
deriving DecidableEq

inductive RecipientKind
  | platform_user
  | crm_user
deriving DecidableEq

structure TelegramTemplateRecipient where
  kind : RecipientKind
  id : JsString
deriving DecidableEq

/-- The event key of a delivery: the key of the event, with what the mode of delivery adds to it. -/
inductive DeliveryKey
  | plain (event : CrmEvent)
  | directResponsible (event : CrmEvent)
  | telegramGroup (event : CrmEvent)
  | telegramChat (event : CrmEvent) (chatId : String)
  | allConnected (event : CrmEvent) (accountId : String)
  | configured (event : CrmEvent) (recipient : TelegramTemplateRecipient)
  | user (event : CrmEvent) (userId : JsString)
deriving DecidableEq

/-- The event that a key is of. -/
def DeliveryKey.event : DeliveryKey → CrmEvent
  | .plain event | .directResponsible event | .telegramGroup event | .telegramChat event _ | .allConnected event _
  | .configured event _ | .user event _ => event

/-- `NotificationDelivery`. -/
structure Delivery where
  eventKey : DeliveryKey
  status : DeliveryStatus
deriving DecidableEq

/-- `TelegramAccount`. -/
structure TelegramAccount where
  id : String
  isActive : Bool

/-- An entry of the recipients of a template. -/
structure RecipientItem where
  kind : Option String
  id : Option JsString

/-- `NotificationTemplate`. The recipients may be no array. -/
structure NotificationTemplate where
  recipients : Option (List RecipientItem)
  isActive : Bool
  groupIds : List String

inductive PlatformBusinessRole
  | OWNER
  | ROP
  | MANAGER
deriving DecidableEq

structure AppUser where
  id : JsString
  isActive : Bool
  isAdmin : Bool
  businessRole : PlatformBusinessRole
  departmentKey : Option Team
  crmUserId : Option JsString

/-- The payload of a notification, as far as it chooses recipients. -/
structure Payload where
  managerCrmUserId : Option JsString := none
  managerExternalId : Option String := none
  team : Option Team := none
  dealId : Option String := none

/-- What a notification reads, and what Telegram does with the requests. The connected accounts and the active chats
are in the order of their linking. -/
structure Surroundings where
  templates : EventType → Option NotificationTemplate
  users : List AppUser
  crmUserByExternalId : String → Option JsString
  departmentOfDeal : String → Option Team
  userAccount : JsString → Option TelegramAccount
  crmUserAccount : JsString → Option TelegramAccount
  connected : List TelegramAccount
  groupChats : List String
  botToken : Bool
  outcome : DeliveryKey → Outcome

/-! ## The mode of delivery -/

inductive TelegramDeliveryMode
  | system
  | direct_responsible
  | selected
  | group
  | all_connected
  | disabled
deriving DecidableEq

/-- `TELEGRAM_DELIVERY_MODES`. -/
def TELEGRAM_DELIVERY_MODES : List (String × TelegramDeliveryMode) :=
  [("system", .system), ("direct_responsible", .direct_responsible), ("selected", .selected), ("group", .group),
    ("all_connected", .all_connected), ("disabled", .disabled)]

def PERSONAL_TELEGRAM_EVENTS : List EventType :=
  [.amo_new_assigned_lead, .amo_assigned_lead_10m, .amo_take_to_work_enabled]

structure TelegramDelivery where
  mode : TelegramDeliveryMode
  recipients : List TelegramTemplateRecipient := []
  groupIds : List String := []

/-- The mode that an entry names. -/
def RecipientItem.deliveryMode (item : RecipientItem) : Option TelegramDeliveryMode :=
  if item.kind = some "delivery_mode" then
    item.id.bind fun id => (TELEGRAM_DELIVERY_MODES.find? fun mode => js mode.1 = id).map Prod.snd
  else none

/-- The recipient that an entry names. -/
def RecipientItem.recipient (item : RecipientItem) : Option TelegramTemplateRecipient :=
  match item.kind, item.id.filter (· ≠ []) with
  | some "platform_user", some id => some ⟨.platform_user, id⟩
  | some "crm_user", some id => some ⟨.crm_user, id⟩
  | _, _ => none

def configuredTelegramDelivery (template : Option NotificationTemplate) : TelegramDelivery :=
  match template.filter (·.isActive) with
  | none => ⟨.disabled, [], []⟩
  | some template =>
    match template.recipients with
    | none => ⟨.system, [], []⟩
    | some raw =>
      if raw.any fun item => item.kind = some "none" && item.id = some (js "none") then ⟨.disabled, [], []⟩
      else
        let recipients := raw.filterMap RecipientItem.recipient
        match raw.findSome? RecipientItem.deliveryMode with
        | some mode => ⟨mode, recipients, template.groupIds⟩
        | none => if recipients.isEmpty then ⟨.system, [], []⟩ else ⟨.selected, recipients, []⟩

def telegramDeliveryModeAllowed (eventType : EventType) (mode : TelegramDeliveryMode) : Bool :=
  if eventType ∈ PERSONAL_TELEGRAM_EVENTS then mode = .system || mode = .direct_responsible || mode = .disabled
  else if mode = .direct_responsible then eventType = .amo_payment_received
  else true

/-! ## Sending -/

/-- The delivery that is recorded under a key. -/
def findDelivery (db : List Delivery) (key : DeliveryKey) : Option Delivery := db.find? (·.eventKey = key)

/-- `deliveryExists` for the key of an event. -/
def deliveryExists (db : List Delivery) (event : CrmEvent) : Bool := (findDelivery db (.plain event)).isSome

/-- `recordDelivery`. The event key is unique: under one that is recorded the statement fails. -/
def recordDelivery (db : List Delivery) (key : DeliveryKey) (status : DeliveryStatus) : Option (List Delivery) :=
  if (findDelivery db key).isSome then none else some (db ++ [⟨key, status⟩])

variable (env : Surroundings)

/-- The status that a request to Telegram ends in. -/
def requestStatus (key : DeliveryKey) : DeliveryStatus :=
  match env.outcome key with
  | .delivered => .sent
  | .paused => .skipped
  | .failed => .error

/-- The status of a direct message to an account. -/
def directStatus (account : Option TelegramAccount) (key : DeliveryKey) : DeliveryStatus :=
  if account.all (!·.isActive) then .skipped else if !env.botToken then .error else requestStatus env key

/-- The delivery that is recorded under a key, or a new one with the status. -/
def sendUnlessRecorded (db : List Delivery) (key : DeliveryKey) (status : DeliveryStatus) :
    List Delivery × DeliveryStatus :=
  match findDelivery db key with
  | some existing => (db, existing.status)
  | none => (db ++ [⟨key, status⟩], status)

def sendDirectMessageToCrmUser (db : List Delivery) (crmUserId : JsString) (key : DeliveryKey) :
    List Delivery × DeliveryStatus :=
  sendUnlessRecorded db key (directStatus env (env.crmUserAccount crmUserId) key)

def sendDirectMessageToUser (db : List Delivery) (userId : JsString) (key : DeliveryKey) :
    List Delivery × DeliveryStatus :=
  sendUnlessRecorded db key (directStatus env (env.userAccount userId) key)

/-- One message after the other. -/
def sendEach {α : Type} (send : List Delivery → α → List Delivery × DeliveryStatus) :
    List Delivery → List α → List Delivery × List DeliveryStatus
  | db, [] => (db, [])
  | db, target :: targets =>
    let sent := send db target
    let rest := sendEach send sent.1 targets
    (rest.1, sent.2 :: rest.2)

/-- Without a token every message is recorded as an error, whether its key is recorded or not. -/
def recordErrors : List Delivery → List DeliveryKey → Option (List Delivery × List DeliveryStatus)
  | db, [] => some (db, [])
  | db, key :: keys => (recordDelivery db key .error).bind fun db =>
    (recordErrors db keys).map fun rest => (rest.1, .error :: rest.2)

def sendDirectMessageToUsers (db : List Delivery) (userIds : List JsString) (event : CrmEvent) :
    List Delivery × List DeliveryStatus :=
  sendEach (fun db userId => sendDirectMessageToUser env db userId (.user event userId)) db
    (firstOfEach id (userIds.filter (· ≠ [])))

/-- Requests under keys of chats or accounts that are all active. -/
def sendRequests (db : List Delivery) (keys : List DeliveryKey) : Option (List Delivery × List DeliveryStatus) :=
  if env.botToken then some (sendEach (fun db key => sendUnlessRecorded db key (requestStatus env key)) db keys)
  else recordErrors db keys

/-- The keys of the active chats among the groups. -/
def groupKeys (groupIds : List String) (event : CrmEvent) : List DeliveryKey :=
  match env.groupChats.filter (groupIds.contains ·) with
  | [_] => [.telegramGroup event]
  | chats => chats.map (.telegramChat event)

def sendMessageToSelectedGroups (db : List Delivery) (groupIds : List String) (event : CrmEvent) :
    Option (List Delivery × List DeliveryStatus) :=
  if groupIds.isEmpty then some (db, []) else sendRequests env db (groupKeys env groupIds event)

def sendDirectMessageToAllConnected (db : List Delivery) (event : CrmEvent) :
    Option (List Delivery × List DeliveryStatus) :=
  sendRequests env db (env.connected.map fun account => .allConnected event account.id)

/-! ## The configured delivery -/

def payloadCrmUserId (payload : Payload) : Option JsString :=
  (payload.managerCrmUserId.map trimmed).filter (· ≠ [])

/-- The active user of a recipient. -/
def recipientUser (recipient : TelegramTemplateRecipient) : Option AppUser :=
  match recipient.kind with
  | .platform_user => (env.users.find? (·.id = recipient.id)).filter (·.isActive)
  | .crm_user => env.users.find? fun user => user.crmUserId = some recipient.id && user.isActive

def recipientMaySeeNotification (recipient : TelegramTemplateRecipient) (payload : Payload) : Bool :=
  let managerId := (payloadCrmUserId payload).or (payload.managerExternalId.bind env.crmUserByExternalId)
  let user := recipientUser env recipient
  if user.any fun user => user.isAdmin || user.businessRole = .OWNER then true
  else if user.any (·.businessRole = .ROP) then
    let department := payload.team.or (payload.dealId.bind env.departmentOfDeal)
    department.isSome && user.bind AppUser.departmentKey = department
  else managerId.any fun managerId =>
    match recipient.kind with
    | .crm_user => recipient.id = managerId
    | .platform_user => user.any (·.crmUserId = some managerId)

/-- A message to a chosen recipient. -/
def sendToRecipient (event : CrmEvent) (db : List Delivery) (recipient : TelegramTemplateRecipient) :
    List Delivery × DeliveryStatus :=
  match recipient.kind with
  | .platform_user => sendDirectMessageToUser env db recipient.id (.configured event recipient)
  | .crm_user => sendDirectMessageToCrmUser env db recipient.id (.configured event recipient)

/-- `sendConfiguredNotification`: the statuses of the deliveries, or `null` where the system chooses the recipients;
nothing where a statement fails. -/
def sendConfiguredNotification (db : List Delivery) (eventType : EventType) (payload : Payload) (event : CrmEvent) :
    Option (List Delivery × Option (List DeliveryStatus)) :=
  let config := configuredTelegramDelivery (env.templates eventType)
  if config.mode = .system then some (db, none)
  else if !telegramDeliveryModeAllowed eventType config.mode then some (db, none)
  else
    match config.mode with
    | .direct_responsible =>
      match payloadCrmUserId payload with
      | none => some (db, some [])
      | some responsibleId =>
        let sent := sendDirectMessageToCrmUser env db responsibleId (.directResponsible event)
        some (sent.1, some [sent.2])
    | .group => (sendMessageToSelectedGroups env db config.groupIds event).map fun sent => (sent.1, some sent.2)
    | .all_connected => (sendDirectMessageToAllConnected env db event).map fun sent => (sent.1, some sent.2)
    | .selected =>
      let sent := sendEach (sendToRecipient env event) db
        (config.recipients.filter (recipientMaySeeNotification env · payload))
      some (sent.1, some sent.2)
    | _ => some (db, some [])

/-- The deliveries of a notification: in the configured mode, or to the leaders. -/
def sendNotification (db : List Delivery) (leaders : List AppUser) (eventType : EventType) (payload : Payload)
    (event : CrmEvent) : Option (List Delivery × List DeliveryStatus) :=
  (sendConfiguredNotification env db eventType payload event).map fun configured =>
    match configured.2 with
    | some statuses => (configured.1, statuses)
    | none => sendDirectMessageToUsers env configured.1 (leaders.map AppUser.id) event

/-- The users that lead a team. -/
def teamLeaderUsers (users : List AppUser) (team : Team) : List AppUser :=
  users.filter fun user => user.isActive && user.businessRole = .ROP && user.departmentKey = some team

/-! ## Recipients -/

/-- The keys of a notification and the statuses that its messages would end in. -/
def targets (leaders : List AppUser) (eventType : EventType) (payload : Payload) (event : CrmEvent) :
    List (DeliveryKey × DeliveryStatus) :=
  let config := configuredTelegramDelivery (env.templates eventType)
  let request := fun key => (key, requestStatus env key)
  if config.mode = .system ∨ telegramDeliveryModeAllowed eventType config.mode = false then
    (firstOfEach id ((leaders.map AppUser.id).filter (· ≠ []))).map fun userId =>
      (.user event userId, directStatus env (env.userAccount userId) (.user event userId))
  else
    match config.mode with
    | .direct_responsible => (payloadCrmUserId payload).toList.map fun responsibleId =>
      (.directResponsible event, directStatus env (env.crmUserAccount responsibleId) (.directResponsible event))
    | .group => if config.groupIds.isEmpty then [] else (groupKeys env config.groupIds event).map request
    | .all_connected => (env.connected.map fun account => .allConnected event account.id).map request
    | .selected => (config.recipients.filter (recipientMaySeeNotification env · payload)).map fun recipient =>
      (.configured event recipient, directStatus env (match recipient.kind with
        | .platform_user => env.userAccount recipient.id
        | .crm_user => env.crmUserAccount recipient.id) (.configured event recipient))
    | _ => []

/-- A message for each key, unless it is recorded. -/
def sendTargets (db : List Delivery) (messages : List (DeliveryKey × DeliveryStatus)) :
    List Delivery × List DeliveryStatus :=
  sendEach (fun db message => sendUnlessRecorded db message.1 message.2) db messages

theorem sendEach_map {α : Type} (message : α → DeliveryKey × DeliveryStatus) (db : List Delivery) (items : List α) :
    sendEach (fun db item => sendUnlessRecorded db (message item).1 (message item).2) db items =
      sendTargets db (items.map message) := by
  induction items generalizing db with
  | nil => rfl
  | cons item items ih =>
    rw [sendEach, ih]
    rfl

/-- With a token a notification is sent to its targets. -/
theorem sendNotification_eq (htoken : env.botToken = true) (db : List Delivery) (leaders : List AppUser)
    (eventType : EventType) (payload : Payload) (event : CrmEvent) :
    sendNotification env db leaders eventType payload event =
      some (sendTargets db (targets env leaders eventType payload event)) := by
  have hleaders : sendDirectMessageToUsers env db (leaders.map AppUser.id) event = sendTargets db
      ((firstOfEach id ((leaders.map AppUser.id).filter (· ≠ []))).map fun userId =>
        (.user event userId, directStatus env (env.userAccount userId) (.user event userId))) :=
    sendEach_map (fun userId => (DeliveryKey.user event userId,
      directStatus env (env.userAccount userId) (.user event userId))) db _
  have hrequests : ∀ keys, sendEach (fun db key => sendUnlessRecorded db key (requestStatus env key)) db keys =
      sendTargets db (keys.map fun key => (key, requestStatus env key)) :=
    sendEach_map (fun key => (key, requestStatus env key)) db
  have hrecipients : ∀ recipients, sendEach (sendToRecipient env event) db recipients =
      sendTargets db (recipients.map fun recipient =>
        (.configured event recipient, directStatus env (match recipient.kind with
          | .platform_user => env.userAccount recipient.id
          | .crm_user => env.crmUserAccount recipient.id) (.configured event recipient))) := fun recipients => by
    rw [← sendEach_map]
    congr 1
    funext db recipient
    unfold sendToRecipient
    cases recipient.kind <;> rfl
  unfold sendNotification sendConfiguredNotification targets
  generalize configuredTelegramDelivery (env.templates eventType) = config
  dsimp only
  by_cases hsystem : config.mode = .system
  · rw [if_pos hsystem, if_pos (.inl hsystem)]
    exact congrArg some hleaders
  rw [if_neg hsystem]
  cases hallowed : telegramDeliveryModeAllowed eventType config.mode with
  | false =>
    rw [if_pos (show (!false) = true from rfl), if_pos (.inr rfl)]
    exact congrArg some hleaders
  | true =>
    rw [if_neg (by decide), if_neg (by simp [hsystem])]
    cases hmode : config.mode with
    | system => exact absurd hmode hsystem
    | disabled => rfl
    | direct_responsible => cases payloadCrmUserId payload <;> rfl
    | selected => exact congrArg some (hrecipients _)
    | group =>
      dsimp only
      unfold sendMessageToSelectedGroups sendRequests
      cases config.groupIds.isEmpty with
      | true => rfl
      | false =>
        rw [if_neg Bool.false_ne_true, if_neg Bool.false_ne_true, if_pos htoken]
        exact congrArg some (hrequests _)
    | all_connected =>
      dsimp only
      unfold sendDirectMessageToAllConnected sendRequests
      rw [if_pos htoken]
      exact congrArg some (hrequests _)

theorem targets_event {leaders : List AppUser} {eventType : EventType} {payload : Payload} {event : CrmEvent}
    {message : DeliveryKey × DeliveryStatus} (h : message ∈ targets env leaders eventType payload event) :
    message.1.event = event := by
  unfold targets at h
  generalize configuredTelegramDelivery (env.templates eventType) = config at h
  dsimp only at h
  by_cases hsystem : config.mode = .system ∨ telegramDeliveryModeAllowed eventType config.mode = false
  · rw [if_pos hsystem] at h
    obtain ⟨userId, -, rfl⟩ := List.mem_map.1 h
    rfl
  rw [if_neg hsystem] at h
  cases hmode : config.mode with
  | system => exact absurd (.inl hmode) hsystem
  | disabled =>
    rw [hmode] at h
    cases h
  | direct_responsible =>
    rw [hmode] at h
    obtain ⟨responsibleId, -, rfl⟩ := List.mem_map.1 h
    rfl
  | selected =>
    rw [hmode] at h
    obtain ⟨recipient, -, rfl⟩ := List.mem_map.1 h
    rfl
  | all_connected =>
    rw [hmode] at h
    obtain ⟨key, hkey, rfl⟩ := List.mem_map.1 h
    obtain ⟨account, -, rfl⟩ := List.mem_map.1 hkey
    rfl
  | group =>
    rw [hmode] at h
    dsimp only at h
    split_ifs at h
    · cases h
    · obtain ⟨key, hkey, rfl⟩ := List.mem_map.1 h
      unfold groupKeys at hkey
      split at hkey
      · rw [List.mem_singleton.1 hkey]
        rfl
      · obtain ⟨chat, -, rfl⟩ := List.mem_map.1 hkey
        rfl

/-! ## What a send records -/

variable {env}
variable {db : List Delivery} {key : DeliveryKey} {status : DeliveryStatus}

theorem findDelivery_isSome : (findDelivery db key).isSome = true ↔ key ∈ db.map Delivery.eventKey := by
  rw [findDelivery, List.find?_isSome, List.mem_map]
  exact exists_congr fun delivery => and_congr_right fun _ => by rw [decide_eq_true_eq]

theorem findDelivery_eq_none : findDelivery db key = none ↔ key ∉ db.map Delivery.eventKey := by
  rw [← findDelivery_isSome, Option.not_isSome_iff_eq_none]

/-- A send changes nothing, or records a new key. -/
theorem sendUnlessRecorded_cases (db : List Delivery) (key : DeliveryKey) (status : DeliveryStatus) :
    (key ∈ db.map Delivery.eventKey ∧ (sendUnlessRecorded db key status).1 = db) ∨
      (key ∉ db.map Delivery.eventKey ∧ sendUnlessRecorded db key status = (db ++ [⟨key, status⟩], status)) := by
  unfold sendUnlessRecorded
  cases hfind : findDelivery db key with
  | none => exact .inr ⟨findDelivery_eq_none.1 hfind, rfl⟩
  | some existing => exact .inl ⟨findDelivery_isSome.1 (by rw [hfind]; rfl), rfl⟩

theorem sendUnlessRecorded_nodup (h : (db.map Delivery.eventKey).Nodup) :
    ((sendUnlessRecorded db key status).1.map Delivery.eventKey).Nodup := by
  rcases sendUnlessRecorded_cases db key status with ⟨-, hsame⟩ | ⟨hnew, hsent⟩
  · rwa [hsame]
  · rw [hsent, List.map_append, List.map_singleton]
    refine List.nodup_append.2 ⟨h, List.nodup_singleton _, ?_⟩
    rintro other hmem _ hother rfl
    have heq : other = key := List.mem_singleton.1 hother
    exact hnew (heq ▸ hmem)

theorem mem_sendUnlessRecorded {delivery : Delivery} (h : delivery ∈ (sendUnlessRecorded db key status).1) :
    delivery ∈ db ∨ delivery = ⟨key, status⟩ := by
  rcases sendUnlessRecorded_cases db key status with ⟨-, hsame⟩ | ⟨-, hsent⟩
  · rw [hsame] at h
    exact .inl h
  · rw [hsent] at h
    exact (List.mem_append.1 h).imp_right List.mem_singleton.1

/-- Messages add deliveries under new keys, each of one of the messages, and then every key is recorded. -/
theorem sendTargets_spec (db : List Delivery) (messages : List (DeliveryKey × DeliveryStatus)) :
    ∃ added, (sendTargets db messages).1 = db ++ added ∧
      (∀ delivery ∈ added, (delivery.eventKey, delivery.status) ∈ messages ∧
        delivery.eventKey ∉ db.map Delivery.eventKey) ∧
      ∀ message ∈ messages, message.1 ∈ (db ++ added).map Delivery.eventKey := by
  induction messages generalizing db with
  | nil => exact ⟨[], (List.append_nil _).symm, fun _ h => absurd h List.not_mem_nil,
    fun _ h => absurd h List.not_mem_nil⟩
  | cons message messages ih =>
    obtain ⟨added, hadded, hnew, hrecorded⟩ := ih (sendUnlessRecorded db message.1 message.2).1
    change ∃ added, (sendTargets (sendUnlessRecorded db message.1 message.2).1 messages).1 = _ ∧ _
    rw [hadded]
    rcases sendUnlessRecorded_cases db message.1 message.2 with ⟨hwas, hsame⟩ | ⟨hnot, hsent⟩
    · rw [hsame] at hnew hrecorded ⊢
      refine ⟨added, rfl, fun delivery hmem => ⟨List.mem_cons_of_mem _ (hnew delivery hmem).1,
        (hnew delivery hmem).2⟩,
        fun other hother => ?_⟩
      rcases List.mem_cons.1 hother with rfl | hlater
      · rw [List.map_append]
        exact List.mem_append_left _ hwas
      · exact hrecorded other hlater
    · rw [hsent] at hnew hrecorded ⊢
      have happend : db ++ ⟨message.1, message.2⟩ :: added = db ++ [⟨message.1, message.2⟩] ++ added :=
        List.append_cons db _ added
      refine ⟨⟨message.1, message.2⟩ :: added, happend.symm, fun delivery hmem => ?_, fun other hother => ?_⟩
      · rcases List.mem_cons.1 hmem with rfl | hlater
        · exact ⟨List.mem_cons_self, hnot⟩
        · refine ⟨List.mem_cons_of_mem _ (hnew delivery hlater).1, fun hwas => (hnew delivery hlater).2 ?_⟩
          rw [List.map_append]
          exact List.mem_append_left _ hwas
      · rw [happend]
        rcases List.mem_cons.1 hother with rfl | hlater
        · simp
        · exact hrecorded other hlater

end AmoAnalytics.Platform.CrmEvents
