import AmoAnalytics.Platform.QualityNotifications

/-!
# Messages to groups

`TelegramService.sendMessageToActiveGroups`: one task for each chat, and all tasks of all ticks and workers run
side by side. A task looks its delivery up, asks Telegram to send, and records the delivery; the event key of a
delivery depends on the number of the chats.
-/

namespace AmoAnalytics.Platform

/-! ## Tables -/

/-- The event key of a delivery: the key of the event, or `<key>:telegram-chat:<chat>`. -/
inductive GroupKey
  | event (eventKey : String)
  | chat (eventKey chatId : String)
  deriving DecidableEq

/-- `TelegramChat`. -/
structure TelegramChat where
  id : String
  isActive : Bool

/-- `NotificationDelivery` of a group. -/
structure GroupDelivery where
  eventKey : GroupKey
  status : DeliveryStatus

/-- Where a task stands. Only Telegram knows whether a message that is being recorded was received. -/
inductive GroupPhase
  | checking
  | sending
  | recording (status : DeliveryStatus) (received : Bool)
  | done
  deriving DecidableEq

/-- The task of one chat in one tick; `key` is its `deliveryEventKey`. -/
structure GroupTask where
  eventKey : String
  chatId : String
  key : GroupKey
  phase : GroupPhase
  deriving DecidableEq

/-- A message that a chat has received, and the key of its task. -/
structure GroupMessage where
  eventKey : String
  chatId : String
  key : GroupKey

/-- The tables and the tasks. No statement reads `messages`. -/
structure GroupDb where
  groups : List TelegramChat
  botToken : Bool
  deliveries : List GroupDelivery := []
  tasks : List GroupTask := []
  messages : List GroupMessage := []

/-- The end of a request; after `lost` the chat has the message and the sender has no answer. -/
inductive SendResult
  | sent
  | lost
  | failed
  | paused
  deriving DecidableEq

/-! ## The program -/

def SendResult.received : SendResult → Bool
  | .sent | .lost => true
  | .failed | .paused => false

def SendResult.status : SendResult → DeliveryStatus
  | .sent => .sent
  | .lost | .failed => .error
  | .paused => .skipped

def groupEventKey (eventKey chatId : String) (totalChats index : ℕ) : GroupKey :=
  if totalChats = 1 ∧ index = 0 then .event eventKey else .chat eventKey chatId

variable (db : GroupDb)

/-- The active chats, those of the list if there is one. -/
def GroupDb.groupChats (selectedGroupIds : Option (List String)) : List TelegramChat :=
  db.groups.filter fun chat => chat.isActive && selectedGroupIds.all (·.contains chat.id)

/-- `sendMessageToActiveGroups`, up to its `Promise.all`. Without a token every task records an error. -/
def GroupDb.sendMessageToActiveGroups (eventKey : String) (selectedGroupIds : Option (List String)) : GroupDb :=
  let groupChats := db.groupChats selectedGroupIds
  { db with tasks := db.tasks ++ groupChats.zipIdx.map fun p =>
      { eventKey, chatId := p.1.id, key := groupEventKey eventKey p.1.id groupChats.length p.2
        phase := if db.botToken then .checking else .recording .error false } }

def GroupDb.recorded (key : GroupKey) : Bool := db.deliveries.any (·.eventKey = key)

/-- The task `i` goes on to a phase. -/
def GroupDb.advance (i : ℕ) (task : GroupTask) (phase : GroupPhase) : GroupDb :=
  { db with tasks := db.tasks.set i { task with phase } }

/-- The look-up of the delivery. -/
def GroupDb.check (i : ℕ) (task : GroupTask) : GroupDb :=
  db.advance i task (if db.recorded task.key then .done else .sending)

/-- The request to Telegram. -/
def GroupDb.send (i : ℕ) (task : GroupTask) (result : SendResult) : GroupDb :=
  { db.advance i task (.recording result.status result.received) with
    messages := if result.received then db.messages ++ [⟨task.eventKey, task.chatId, task.key⟩]
      else db.messages }

/-- `recordDelivery`. The event key is unique, and a second delivery under it is rejected. -/
def GroupDb.recordDelivery (i : ℕ) (task : GroupTask) (status : DeliveryStatus) : GroupDb :=
  { db.advance i task .done with
    deliveries := if db.recorded task.key then db.deliveries else db.deliveries ++ [⟨task.key, status⟩] }

/-! ## Histories -/

inductive GroupAction
  | configure (groups : List TelegramChat)
  | token (botToken : Bool)
  | tick (eventKey : String) (selectedGroupIds : Option (List String))
  | check (i : ℕ)
  | send (i : ℕ) (result : SendResult)
  | record (i : ℕ)

/-- Changes of the chats, ticks, and the statements of all tasks, in any order. -/
def groupStep (db : GroupDb) : GroupAction → Option GroupDb
  | .configure groups => some { db with groups }
  | .token botToken => some { db with botToken }
  | .tick eventKey selectedGroupIds => some (db.sendMessageToActiveGroups eventKey selectedGroupIds)
  | .check i => db.tasks[i]?.bind fun task =>
    if task.phase = .checking then some (db.check i task) else none
  | .send i result => db.tasks[i]?.bind fun task =>
    if task.phase = .sending then some (db.send i task result) else none
  | .record i => db.tasks[i]?.bind fun task =>
    match task.phase with
    | .recording status _ => some (db.recordDelivery i task status)
    | _ => none

/-- The messages of an event that a chat has received. -/
def GroupDb.received (eventKey chatId : String) : ℕ :=
  db.messages.countP fun message => message.eventKey = eventKey && message.chatId = chatId

end AmoAnalytics.Platform
