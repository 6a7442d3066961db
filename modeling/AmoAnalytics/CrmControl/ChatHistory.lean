import AmoAnalytics.CrmControl.ChatBinding
import AmoAnalytics.Lib.Effect
import AmoAnalytics.Lib.JsMap
import AmoAnalytics.Lib.JsonOrder

/-!
# The history of a deal's chats

`collectCrmChatHistory` of `crm-control-chat-history.ts`: two inventories of the talks and chats of a deal, and
between them every chat read page by page. The source is a state that answers each request as it likes and moves on;
the clock is part of it.
-/

namespace AmoAnalytics.CrmControl.Chat

open JsText Effect

/-! ## Requests and answers -/

/-- `CrmChatJsonCapture`. -/
structure JsonCapture where
  httpStatus : ℤ
  capturedAt : JsString
  value : JsValue

/-- An error of the account session, or one with a message. -/
inductive Fault
  | authExpired
  | error (message : JsString)

def fault (code : String) : Fault := .error (js code)

/-- `CrmChatHistoryTransport` and the clock. A count that is no integer is none. -/
structure Transport (σ : Type) where
  listTalks : ℕ → ℕ → σ → Except Fault JsonCapture × σ
  listRelatedChats : σ → Except Fault JsonCapture × σ
  readMessages : JsString → ℕ → ℕ → σ → Except Fault JsonCapture × σ
  readCount : JsString → σ → Except Fault (Option ℤ) × σ
  readTalk : JsString → σ → Except Fault JsonCapture × σ
  /-- `Date.now()`. -/
  dateNow : σ → ℤ × σ
  /-- `now().toISOString()`. -/
  now : σ → JsString × σ

structure HistoryRuntime where
  /-- `Date.parse`; NaN is none. -/
  dateParse : JsString → Option ℤ
  /-- The bytes of a value as JSON. -/
  valueBytes : JsValue → ℕ
  /-- The bytes of a message with its binding as JSON. -/
  recordBytes : MessageCapture → BindingResult → ℕ
  /-- The digest of the canonical text; it throws for a value without a text. -/
  digest : JsValue → Option JsString
  /-- The digest of some texts. -/
  textsDigest : List JsString → JsString
  sourceHash : JsValue → Option JsString
  /-- The path of a URL and the number that its parameter `page` is. -/
  parseUrl : JsString → Option (JsString × Option ℤ)

structure HistoryInput where
  connectionId : JsString
  accountExternalId : JsString
  dealExternalId : JsString
  maxChats : Option ℕ
  maxPages : Option ℕ
  maxTalkPages : Option ℕ
  deadlineMs : Option ℤ

namespace HistoryInput

variable (input : HistoryInput)

def chatLimit : ℕ := min 32 (max 1 (input.maxChats.getD 32))

def pageLimit : ℕ := min 100 (max 1 (input.maxPages.getD 100))

def talkPageLimit : ℕ := min 20 (max 1 (input.maxTalkPages.getD 20))

def timeLimit : ℤ := min 180000 (input.deadlineMs.getD 120000)

def scopeInvalid : Bool :=
  input.connectionId.isEmpty || (numericId (.str input.accountExternalId)).isNone ||
    (numericId (.str input.dealExternalId)).isNone

end HistoryInput

/-! ## What is collected -/

/-- `CrmChatHistoryMessage`. -/
structure HistoryMessage where
  capture : MessageCapture
  binding : BindingResult

structure ChatRecord where
  chatId : JsString
  readComplete : Bool
  reasonCodes : List JsString
  totalBefore : Option (Option ℤ)
  totalAfter : Option (Option ℤ)
  messages : List HistoryMessage
  talks : List TalkCapture
  confirmations : List TalkCapture

structure Inventory where
  initial : List JsonCapture
  confirmation : List JsonCapture
  relatedInitial : Option JsonCapture
  relatedConfirmation : Option JsonCapture

/-- `CrmChatHistory`. -/
structure CrmChatHistory where
  accountExternalId : JsString
  dealExternalId : JsString
  startedAt : JsString
  finishedAt : JsString
  readComplete : Bool
  reasonCodes : List JsString
  inventory : Inventory
  chats : List ChatRecord

/-! ## Runs over the source -/

/-- The source, the bytes captured so far and what is being collected. -/
structure World (σ ω : Type) where
  source : σ
  capturedBytes : ℕ
  output : ω

abbrev Collect (σ ω α : Type) : Type := Effect (World σ ω) Fault α

variable {σ ω ω' α : Type}

/-- An answer of the source. -/
def ask (request : σ → Except Fault α × σ) : Collect σ ω α := fun world =>
  ((request world.source).1, { world with source := (request world.source).2 })

/-- A reading of the clock. -/
def reading (clock : σ → α × σ) : Collect σ ω α := ask fun s => (.ok (clock s).1, (clock s).2)

def save (f : ω → ω) : Collect σ ω Unit := Effect.modify fun world => { world with output := f world.output }

def saveIf (condition : Bool) (f : ω → ω) : Collect σ ω Unit := if condition then save f else pure ()

def refuse (code : String) : Collect σ ω α := Effect.fail (fault code)

def refuseIf (condition : Bool) (code : String) : Collect σ ω Unit := Effect.failIf condition (fault code)

/-- A run that collects something of its own, from `start` on; a fault of it ends it alone. -/
def within (start : ω') (run : Collect σ ω' Unit) : Collect σ ω (Except Fault Unit × ω') := fun world =>
  let result := run ⟨world.source, world.capturedBytes, start⟩
  (.ok (result.1, result.2.output), ⟨result.2.source, result.2.capturedBytes, world.output⟩)

/-- What the whole collection knows from its start. -/
structure Session (σ : Type) where
  rt : HistoryRuntime
  transport : Transport σ
  input : HistoryInput
  startedAt : JsString
  deadline : ℤ

namespace Session

variable (session : Session σ)

def check : Collect σ ω Unit := do
  let time ← reading session.transport.dateNow
  refuseIf (session.deadline ≤ time) "CHAT_TIME_LIMIT"

def captureLimit : ℕ := 8 * 1024 * 1024

def archiveLimit : ℕ := 12 * 1024 * 1024

/-- A capture with a date from the start on and of at most eight megabytes. -/
def isCapture (capture : JsonCapture) : Bool :=
  (session.rt.dateParse capture.capturedAt).any (fun captured =>
    (session.rt.dateParse session.startedAt).all (· ≤ captured)) &&
  session.rt.valueBytes capture.value ≤ captureLimit

/-- `capturedBytes += bytes`, up to twelve megabytes. -/
def spend (bytes : ℕ) : Collect σ ω Unit := do
  Effect.modify fun world => { world with capturedBytes := world.capturedBytes + bytes }
  let total ← Effect.gets (·.capturedBytes)
  refuseIf (archiveLimit < total) "CHAT_ARCHIVE_LIMIT"

def validCapture (capture : JsonCapture) : Collect σ ω JsonCapture := do
  refuseIf (!session.isCapture capture) "CHAT_CAPTURE_INVALID"
  spend (session.rt.valueBytes capture.value)
  pure capture

/-! ## The inventory of talks -/

structure Talk where
  chatId : JsString
  relation : JsString
  deriving DecidableEq

abbrev Talks := List (JsString × Talk)

/-- A talk of the deal, by its id. -/
def talkOf (value : JsValue) : Except Fault (JsString × Talk) :=
  match numericId (value.get "talk_id"), id (value.get "chat_id"), numericId (value.get "account_id"),
    numericId (value.get "entity_id"), numericId (value.get "contact_id") with
  | some talkId, some chatId, some accountId, some entityId, some contactId =>
    if accountId ≠ session.input.accountExternalId || !(value.get "entity_type").isText (js "lead") ||
        entityId ≠ session.input.dealExternalId then
      .error (fault "CHAT_TALK_INVENTORY_SCOPE")
    else .ok (talkId, ⟨chatId, session.rt.textsDigest [talkId, chatId, js "lead", entityId, contactId, accountId]⟩)
  | _, _, _, _, _ => .error (fault "CHAT_TALK_INVENTORY_SCOPE")

def addTalk (talks : Talks) (value : JsValue) : Except Fault Talks := do
  let (talkId, talk) ← session.talkOf value
  if talkId ∈ talks.map Prod.fst then .error (fault "CHAT_TALK_INVENTORY_DUPLICATE")
  else .ok (talks ++ [(talkId, talk)])

end Session

/-- `!value`. -/
def isFalsy : JsValue → Bool
  | .undefined => true
  | .null => true
  | .bool b => !b
  | .num n => n = some 0
  | .str s => s.isEmpty
  | _ => false

namespace Session

variable (session : Session σ)

/-- The link to the next page stands for the page that follows. -/
def linksTo (next : JsValue) (page : ℕ) : Bool :=
  ((next.get "href").str?.bind session.rt.parseUrl).any fun url =>
    url.1 = js "/api/v4/talks" && url.2 = some (page + 1 : ℤ)

/-- The talks of a page, and whether another page follows. -/
def readTalkPage (capture : JsonCapture) (page : ℕ) (talks : Talks) : Except Fault (Talks × Bool) :=
  match ((capture.value.get "_embedded").get "talks").arr? with
  | none => .error (fault "CHAT_TALK_INVENTORY_INVALID")
  | some rows =>
    if capture.httpStatus ≠ 200 || 250 < rows.length then .error (fault "CHAT_TALK_INVENTORY_INVALID")
    else do
      let talks ← rows.foldlM session.addTalk talks
      let next := (capture.value.get "_links").get "next"
      if isFalsy next then .ok (talks, false)
      else if rows.isEmpty || !next.isObject || !session.linksTo next page then
        .error (fault "CHAT_TALK_PAGINATION_INVALID")
      else .ok (talks, true)

/-- `inventory`, from a page on with some pages left; the captures are pushed to the output. -/
def inventory (push : JsonCapture → ω → ω) : ℕ → ℕ → Talks → Collect σ ω Talks
  | 0, _, _ => refuse "CHAT_TALK_INVENTORY_LIMIT"
  | pages + 1, page, talks => do
    session.check
    let capture ← session.validCapture (← ask (session.transport.listTalks page 250))
    save (push capture)
    if capture.httpStatus = 204 then pure talks
    else do
      let (talks, more) ← Effect.ofExcept (session.readTalkPage capture page talks)
      if more then inventory push pages (page + 1) talks else pure talks

/-! ## Related chats -/

/-- The ids of a page of chats, each once. -/
def chatIdsOf (capture : JsonCapture) : Except Fault (List JsString) :=
  match ((capture.value.get "_embedded").get "chats").arr? with
  | none => .error (fault "CHAT_RELATED_INVENTORY_INVALID")
  | some rows =>
    if capture.httpStatus ≠ 200 || 1000 < rows.length ||
        !isFalsy ((capture.value.get "_links").get "next") then
      .error (fault "CHAT_RELATED_INVENTORY_INVALID")
    else
      match rows.mapM fun value => id (value.get "chat_id") with
      | none => .error (fault "CHAT_RELATED_INVENTORY_INVALID")
      | some ids => if ids.Nodup then .ok ids else .error (fault "CHAT_RELATED_INVENTORY_INVALID")

def sortTexts (texts : List JsString) : List JsString := texts.mergeSort codeUnits.le

def relatedIds (capture : JsonCapture) : Collect σ ω (List JsString) := do
  let capture ← session.validCapture capture
  if capture.httpStatus = 204 then pure []
  else return sortTexts (← Effect.ofExcept (chatIdsOf capture))

/-! ## The pages of a chat -/

/-- The messages seen, by their ids. -/
abbrev Seen := List (JsString × MessageCapture)

def addMessage (chatId capturedAt : JsString) (seen : Seen) (value : JsValue) : Except Fault Seen :=
  match id (value.get "id") with
  | none => .error (fault "CHAT_MESSAGE_DUPLICATE_OR_INVALID")
  | some messageId =>
    if messageId ∈ seen.map Prod.fst then .error (fault "CHAT_MESSAGE_DUPLICATE_OR_INVALID")
    else .ok (seen ++ [(messageId, ⟨chatId, capturedAt, value⟩)])

/-- The values of a page of at most fifty messages. -/
def pageValues (capture : JsonCapture) : Except Fault (List JsValue) :=
  match capture.value.arr? with
  | some values =>
    if capture.httpStatus = 200 && values.length ≤ 50 then .ok values else .error (fault "CHAT_MESSAGES_INVALID")
  | none => .error (fault "CHAT_MESSAGES_INVALID")

def digestOf (value : JsValue) : Except Fault JsString :=
  match session.rt.digest value with
  | some digest => .ok digest
  | none => .error (fault "CHAT_READ_FAILED")

/-- The digest of the first page, taken once. -/
def firstHashOf (first : Option JsString) (value : JsValue) : Except Fault JsString :=
  match first with
  | some firstHash => .ok firstHash
  | none => session.digestOf value

/-- The loop over the pages, with some pages left: the messages seen and the digest of the first page. -/
def readPages (chatId : JsString) : ℕ → ℕ → Option JsString → Seen → Collect σ ω (Seen × JsString)
  | 0, _, _, _ => refuse "CHAT_MESSAGES_LIMIT"
  | pages + 1, offset, first, seen => do
    session.check
    let capture ← session.validCapture (← ask (session.transport.readMessages chatId offset 50))
    let values ← Effect.ofExcept (pageValues capture)
    let firstHash ← Effect.ofExcept (session.firstHashOf first capture.value)
    let seen ← Effect.ofExcept (values.foldlM (addMessage chatId capture.capturedAt) seen)
    if values.length < 50 then pure (seen, firstHash)
    else readPages chatId pages (offset + values.length) (some firstHash) seen

/-! ## A chat -/

/-- The talk that a message names. -/
def dialogId (value : JsValue) : Option JsString := numericId ((value.get "dialog").get "id")

def pushTalk (push : TalkCapture → ChatRecord → ChatRecord) (talkId : JsString) : Collect σ ChatRecord Unit := do
  session.check
  let capture ← session.validCapture (← ask (session.transport.readTalk talkId))
  save (push ⟨talkId, capture.capturedAt, capture.httpStatus, capture.value⟩)

/-- The capture of the talk, or one that is absent. -/
def talkFor (talks : List TalkCapture) (talkId : Option JsString) (finishedAt : JsString) : TalkCapture :=
  (talks.find? fun talk => some talk.requestedTalkId = talkId).getD ⟨talkId.getD [], finishedAt, 0, .null⟩

def bindingInput (chatId finishedAt : JsString) (chat : ChatRecord) (capture : MessageCapture) : BindingInput where
  scope := ⟨session.input.connectionId, session.input.accountExternalId, session.input.dealExternalId, chatId,
    finishedAt⟩
  collectionStartedAt := session.startedAt
  collectionFinishedAt := finishedAt
  message := capture
  talk := talkFor chat.talks (dialogId capture.value) finishedAt
  confirmation := talkFor chat.confirmations (dialogId capture.value) finishedAt

def pushMessage (chatId finishedAt : JsString) (capture : MessageCapture) : Collect σ ChatRecord Unit := do
  let chat ← Effect.gets (·.output)
  let binding := bindCrmControlChatMessage session.rt.sourceHash (session.bindingInput chatId finishedAt chat capture)
  spend (session.rt.recordBytes capture binding)
  save fun chat => { chat with messages := chat.messages ++ [⟨capture, binding⟩] }

def emptyChat (chatId : JsString) : ChatRecord := ⟨chatId, false, [], none, none, [], [], []⟩

/-- The talks that the messages name, each once. -/
def talkIdsOf (seen : Seen) : List JsString :=
  JsMap.distinct (seen.filterMap fun message => dialogId message.2.value)

/-- The body of the loop over the chats, within its `try`. -/
def readChat (chatId : JsString) : Collect σ ChatRecord Unit := do
  session.check
  let totalBefore ← ask (session.transport.readCount chatId)
  save fun chat => { chat with totalBefore := some totalBefore }
  refuseIf ((safeInteger totalBefore).all (· < 0)) "CHAT_COUNT_INVALID"
  let (seen, firstHash) ← session.readPages chatId session.input.pageLimit 0 none []
  session.check
  let totalAfter ← ask (session.transport.readCount chatId)
  save fun chat => { chat with totalAfter := some totalAfter }
  refuseIf (totalBefore ≠ totalAfter || some (seen.length : ℤ) ≠ totalAfter) "CHAT_COUNT_CHANGED_OR_INCOMPLETE"
  let repeated ← session.validCapture (← ask (session.transport.readMessages chatId 0 50))
  refuseIf (repeated.httpStatus ≠ 200) "CHAT_MESSAGES_CHANGED"
  let repeatedHash ← Effect.ofExcept (session.digestOf repeated.value)
  refuseIf (repeatedHash ≠ firstHash) "CHAT_MESSAGES_CHANGED"
  let talkIds := talkIdsOf seen
  refuseIf (100 < talkIds.length) "CHAT_TALK_LIMIT"
  Effect.each (session.pushTalk fun talk chat => { chat with talks := chat.talks ++ [talk] }) talkIds
  Effect.each (session.pushTalk fun talk chat => { chat with confirmations := chat.confirmations ++ [talk] }) talkIds
  let finishedAt ← reading session.transport.now
  Effect.each (session.pushMessage chatId finishedAt) (seen.map Prod.snd)
  save fun chat => { chat with readComplete := true }

/-! ## The collection -/

/-- `[A-Z_]`. -/
def isCodeUnit (c : UInt16) : Bool := between 'A' 'Z' c || oneOf "_" c

/-- `code`. -/
def codeOf : Fault → JsString
  | .error message =>
    let rest := message.drop 5
    if (js "CHAT_").isPrefixOf message && !rest.isEmpty && rest.all isCodeUnit then message else js "CHAT_READ_FAILED"
  | .authExpired => js "CHAT_READ_FAILED"

def pushReason (code : JsString) (history : CrmChatHistory) : CrmChatHistory :=
  { history with reasonCodes := history.reasonCodes ++ [code] }

/-- What the `catch` leaves of a chat. -/
def closeChat (result : Except Fault Unit) (chat : ChatRecord) : ChatRecord :=
  match result with
  | .ok () => chat
  | .error e => { chat with reasonCodes := chat.reasonCodes ++ [codeOf e] }

def isAuthExpired : Except Fault Unit → Bool
  | .error .authExpired => true
  | _ => false

def readChats : List JsString → Collect σ CrmChatHistory Unit
  | [] => pure ()
  | chatId :: rest => do
    let (result, chat) ← within (emptyChat chatId) (session.readChat chatId)
    Effect.failIf (isAuthExpired result) .authExpired
    let chat := closeChat result chat
    save fun history => { history with chats := history.chats ++ [chat] }
    if chat.reasonCodes.contains (js "CHAT_ARCHIVE_LIMIT") then save (pushReason (js "CHAT_ARCHIVE_LIMIT"))
    else readChats rest

/-- `[...talks].sort()`, by the texts of the entries. -/
def sortTalks (talks : Talks) : Talks :=
  talks.mergeSort fun a b => codeUnits.le (a.1 ++ js ",[object Object]") (b.1 ++ js ",[object Object]")

/-- The chats of the talks and the related ones. -/
def chatIds (initial : Talks) (related : List JsString) : List JsString :=
  sortTexts (JsMap.distinct (initial.map (fun talk => talk.2.chatId) ++ related))

def pushInitial (capture : JsonCapture) (history : CrmChatHistory) : CrmChatHistory :=
  { history with inventory := { history.inventory with initial := history.inventory.initial ++ [capture] } }

def pushConfirmation (capture : JsonCapture) (history : CrmChatHistory) : CrmChatHistory :=
  { history with inventory := { history.inventory with confirmation := history.inventory.confirmation ++ [capture] } }

def setRelatedInitial (capture : JsonCapture) (history : CrmChatHistory) : CrmChatHistory :=
  { history with inventory := { history.inventory with relatedInitial := some capture } }

def setRelatedConfirmation (capture : JsonCapture) (history : CrmChatHistory) : CrmChatHistory :=
  { history with inventory := { history.inventory with relatedConfirmation := some capture } }

/-- `output.readComplete = !output.reasonCodes.length && output.chats.every(chat => chat.readComplete)`. -/
def conclude (history : CrmChatHistory) : CrmChatHistory :=
  { history with readComplete := history.reasonCodes.isEmpty && history.chats.all (·.readComplete) }

/-- The body of the collection, within its `try`. -/
def collectAll : Collect σ CrmChatHistory Unit := do
  let initial ← session.inventory pushInitial session.input.talkPageLimit 1 []
  let relatedInitial ← ask session.transport.listRelatedChats
  save (setRelatedInitial relatedInitial)
  let related ← session.relatedIds relatedInitial
  let ids := chatIds initial related
  saveIf (session.input.chatLimit < ids.length) (pushReason (js "CHAT_INVENTORY_LIMIT"))
  session.readChats (ids.take session.input.chatLimit)
  session.check
  let confirmed ← session.inventory pushConfirmation session.input.talkPageLimit 1 []
  let relatedConfirmation ← ask session.transport.listRelatedChats
  save (setRelatedConfirmation relatedConfirmation)
  let confirmedIds ← session.relatedIds relatedConfirmation
  saveIf (sortTalks initial ≠ sortTalks confirmed || related ≠ confirmedIds)
    (pushReason (js "CHAT_INVENTORY_CHANGED"))
  save conclude

def emptyHistory (input : HistoryInput) (startedAt : JsString) : CrmChatHistory :=
  ⟨input.accountExternalId, input.dealExternalId, startedAt, startedAt, false, [], ⟨[], [], none, none⟩, []⟩

end Session

/-- `collectCrmChatHistory`, from a state of the source. -/
def collectCrmChatHistory (rt : HistoryRuntime) (transport : Transport σ) (input : HistoryInput) (source : σ) :
    Except Fault CrmChatHistory × σ :=
  if input.scopeInvalid then (.error (fault "CHAT_SCOPE_INVALID"), source)
  else
    let (time, source) := transport.dateNow source
    let (startedAt, source) := transport.now source
    let session : Session σ := ⟨rt, transport, input, startedAt, time + input.timeLimit⟩
    match session.collectAll ⟨source, 0, Session.emptyHistory input startedAt⟩ with
    | (.error .authExpired, world) => (.error .authExpired, world.source)
    | (result, world) =>
      let history := match result with
        | .ok () => world.output
        | .error e => Session.pushReason (Session.codeOf e) world.output
      let (finishedAt, source) := transport.now world.source
      (.ok { history with finishedAt }, source)

end AmoAnalytics.CrmControl.Chat
