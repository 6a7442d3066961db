import AmoAnalytics.CrmControl.ChatMessage
import AmoAnalytics.CrmControl.SemanticValidation

/-!
# Archived sources of a request

`crm-control-semantic.chat.ts` and `crm-control-semantic.mail.ts` append the messages of a verified private archive to
the request of a saved check, and `enqueue` of `crm-control-analysis.service.ts` tests the result with a response that
leaves every fact uncertain. The text of a mail without its markup and quotations is a parameter.
-/

namespace AmoAnalytics.CrmControl.Semantic

open JsText

/-! ## The observation and the archive -/

structure Observation where
  dealId : JsString
  dealExternalId : Option JsString
  managerId : Option JsString
  observedAt : ℤ
  snapshot : JsValue

structure Connection where
  id : JsString
  accountId : Option JsString

structure ChatCapture where
  chatId : JsString
  messages : List Chat.MessageCapture
  talks : List Chat.TalkCapture
  confirmations : List Chat.TalkCapture

structure ChatHistory where
  accountExternalId : JsString
  dealExternalId : JsString
  startedAt : JsString
  finishedAt : JsString
  chats : List ChatCapture

structure ChatAccount where
  accountExternalId : JsString
  capturedAt : JsString
  accountUsers : List Chat.AccountUser
  unresolvedAccountActorIds : Option (List JsString)

inductive EntryBinding
  | deal
  | relatedEntity
  deriving DecidableEq

structure MailReference where
  threadId : JsString
  messageId : JsString
  sent : Bool

structure TimelineEntry where
  entityId : JsString
  binding : EntryBinding
  mail : Option MailReference

structure MailParticipant where
  type : JsString
  id : Option JsString

structure MailParticipants where
  sender : Option (List MailParticipant)
  reasonCodes : List String

structure MailMessage where
  id : JsString
  occurredAt : JsString
  sent : Bool
  content : JsString
  participants : Option MailParticipants

structure MailThread where
  id : JsString
  binding : EntryBinding
  messages : List MailMessage

structure BrowserHistory where
  dealExternalId : JsString
  entries : List TimelineEntry
  threads : List MailThread

structure Manifest where
  dealExternalId : JsString
  startedAt : JsString
  finishedAt : JsString
  connectionId : Option JsString
  accountExternalId : Option JsString
  history : BrowserHistory
  chatHistory : Option ChatHistory
  chatAccount : Option ChatAccount
  chatExternalContacts : Option (List Chat.ExternalContact)

/-- The runtime with `normalizeCrmControlMailText`: the text of a mail that is eligible. -/
structure ArchiveRuntime extends toChat : Chat.Runtime where
  mailText : JsString → Option JsString

/-! ## Appending -/

/-- A producer that gives up: the request stays as it was, or an exception is thrown. -/
inductive Abort
  | unchanged
  | thrown

/-- The sources of the messages in turn; a second source of one id gives up. -/
def collect : List JsString → List (Except Abort (Option Source)) → Except Abort (List Source)
  | _, [] => .ok []
  | _, .error abort :: _ => .error abort
  | seen, .ok none :: rest => collect seen rest
  | seen, .ok (some source) :: rest =>
    if seen.contains source.id then .error .unchanged
    else (collect (source.id :: seen) rest).map (source :: ·)

/-- The request with the collected sources; `none` for an exception. -/
def appendSources (request : Request) (messages : List (Except Abort (Option Source))) : Option Request :=
  match collect (request.sources.map (·.id)) messages with
  | .ok appended => some { request with sources := request.sources ++ appended }
  | .error .unchanged => some request
  | .error .thrown => none

def archivable (request : Request) : Bool := request.check = .deadlineAgreement || request.check = .priceDelay

/-- The snapshot names the same account or none; `none` for an exception. -/
def sameAccount (raw : JsValue) (accountId : JsString) : Option Bool :=
  if Chat.nullish (raw.get "account_id") then some true
  else (raw.get "account_id").text.map fun s => s = accountId

/-- `value === true`. -/
def isTrue : JsValue → Bool
  | .bool b => b
  | _ => false

/-- `new Set(contacts.map(contact => String(contact?.id)))`. -/
def contactIds (raw : JsValue) : Option (List JsString) :=
  (((raw.get "_embedded").get "contacts").arr?.getD []).mapM fun contact => (contact.get "id").text

/-! ## Chats -/

section Chats

variable (rt : ArchiveRuntime) (observation : Observation) (request : Request) (manifest : Manifest)
  (connection : Connection)

/-- `Date.parse` of a text that starts like an instant. -/
def time (s : JsString) : Option ℤ := if fits "####-##-##T" (s.take 11) then rt.dateParse s else none

/-- What the archived chats are read with. -/
structure ChatScope where
  accountId : JsString
  connectionId : JsString
  dealExternalId : JsString
  stageEntered : ℤ
  history : ChatHistory
  account : ChatAccount
  externalContacts : List Chat.ExternalContact

/-- The times of the archive: the run, the collection of the chats and the account within it. -/
def chatTimesFit (browser : JsValue) (history : ChatHistory) (account : ChatAccount) : Bool :=
  match time rt manifest.startedAt, time rt manifest.finishedAt, time rt history.startedAt,
    time rt history.finishedAt, time rt account.capturedAt with
  | some start, some finish, some chatStart, some chatFinish, some captured =>
    start ≤ finish && finish ≤ observation.observedAt && (browser.get "startedAt").str?.bind (time rt) = some start &&
      (browser.get "finishedAt").str?.bind (time rt) = some finish && start ≤ chatStart && chatFinish ≤ finish &&
      chatStart ≤ chatFinish && start ≤ captured && captured ≤ finish
  | _, _, _, _, _ => false

/-- The archive, the request and the connection belong to the observation: `none` gives the request back unchanged. -/
def chatScope : Except Abort (Option ChatScope) :=
  let deal := observation.snapshot.get "deal"
  let raw := deal.get "raw"
  let browser := observation.snapshot.get "browserSources"
  match observation.dealExternalId, (browser.get "accountExternalId").str?, (browser.get "connectionId").str?,
    manifest.chatHistory, manifest.chatAccount with
  | some dealId, some accountId, some connectionId, some history, some account =>
    if !Chat.isNumericId dealId || !Chat.isNumericId accountId || !Chat.isId connectionId ||
        connection.id ≠ connectionId || connection.accountId ≠ some accountId ||
        manifest.connectionId ≠ some connectionId || manifest.accountExternalId ≠ some accountId ||
        manifest.dealExternalId ≠ dealId || history.accountExternalId ≠ accountId ||
        history.dealExternalId ≠ dealId || account.accountExternalId ≠ accountId ||
        !(deal.get "id").isText observation.dealId ||
        !sameText (deal.get "responsibleId") observation.managerId then .ok none
    else
      match (raw.get "id").text with
      | none => .error .thrown
      | some rawId =>
        if rawId ≠ dealId then .ok none
        else
          match sameAccount raw accountId with
          | none => .error .thrown
          | some same =>
            if !same || request.dealId ≠ observation.dealId || some request.ownerId ≠ observation.managerId ||
                time rt request.observedAt ≠ some observation.observedAt ||
                !isTrue ((observation.snapshot.get "sourceCompleteness").get "deal") ||
                !chatTimesFit rt observation manifest browser history account || 32 < history.chats.length then
              .ok none
            else
              match request.stageEnteredAt.bind (time rt), manifest.chatExternalContacts with
              | some stageEntered, some contacts =>
                .ok (some ⟨accountId, connectionId, dealId, stageEntered, history, account, contacts⟩)
              | _, _ => .ok none
  | _, _, _, _, _ => .ok none

/-- The message of the capture, when exactly one talk and one confirmation were asked for its dialog. -/
def chatMessage (scope : ChatScope) (chat : ChatCapture) (capture : Chat.MessageCapture) (talkId : JsString) :
    Option Chat.NormalizedMessage :=
  match chat.talks.filter (·.requestedTalkId = talkId), chat.confirmations.filter (·.requestedTalkId = talkId) with
  | [talk], [confirmation] =>
    let binding := Chat.bindCrmControlChatMessage rt.sourceHash
      { scope := ⟨scope.connectionId, scope.accountId, scope.dealExternalId, chat.chatId,
          isoString observation.observedAt⟩
        collectionStartedAt := scope.history.startedAt, collectionFinishedAt := scope.history.finishedAt
        message := capture, talk, confirmation }
    let targets := scope.externalContacts.filter (·.chatId = chat.chatId)
    if binding.status ≠ .bound then none
    else (Chat.normalizeCrmControlChatMessage rt.toChat
      { value := capture.value, binding, accountUsers := scope.account.accountUsers
        accountUnknownActorIds := scope.account.unresolvedAccountActorIds
        externalContact := match targets with
          | [target] => some target
          | _ => none }).message
  | _, _ => none

/-- `String(value ?? '')`. -/
def textOrEmpty (value : JsValue) : Option JsString := if Chat.nullish value then some [] else value.text

def chatSourceId (chat : ChatCapture) (message : Chat.NormalizedMessage) : JsString :=
  js "chat:" ++ chat.chatId ++ js ":" ++ message.messageId

/-- The source of a message of the customer, or of the manager. -/
def chatSourceOf (chat : ChatCapture) (message : Chat.NormalizedMessage) (text : JsString) (customer : Bool) :
    Source where
  id := chatSourceId chat message
  sourceHash := rt.textHash text
  dealId := observation.dealId
  ownerId := observation.managerId.getD []
  subjectId := none
  kind := if customer then .customerMessage else .message
  actor := if customer then .customer else .manager
  actorId := if customer then message.authorId else message.authorUserId
  direction := match message.direction with
    | .incoming => .incoming
    | .outgoing => .outgoing
    | .unverified => .unknown
  text := text
  createdAt := message.occurredAt

/-- The text of a message that is a source: eligible, in the window, of a contact of the deal. -/
def chatText (scope : ChatScope) (contacts : List JsString) (message : Chat.NormalizedMessage) : Option JsString :=
  if message.eligibleAsSemanticSource && ((message.occurredAt.bind (time rt)).any fun t =>
      scope.stageEntered ≤ t && t ≤ observation.observedAt) && contacts.contains message.contactId then
    message.text.filter (· ≠ [])
  else none

/-- The source of a capture, if it gives one. -/
def chatSource (scope : ChatScope) (contacts : List JsString) (chat : ChatCapture) (capture : Chat.MessageCapture) :
    Except Abort (Option Source) :=
  match textOrEmpty ((capture.value.get "dialog").get "id") with
  | none => .error .thrown
  | some talkId =>
    match chatMessage rt observation scope chat capture talkId with
    | none => .ok none
    | some message =>
      match chatText rt observation scope contacts message with
      | none => .ok none
      | some text =>
        if message.direction = .incoming && message.actorKind = .external then
          .ok (some (chatSourceOf rt observation chat message text true))
        else if message.direction = .outgoing && message.actorKind = .internal then
          match textOrEmpty (((observation.snapshot.get "deal").get "raw").get "responsible_user_id") with
          | none => .error .thrown
          | some responsible =>
            .ok (if message.authorUserId = some responsible then
              some (chatSourceOf rt observation chat message text false) else none)
        else .ok none

/-- The messages of the chats in turn; a chat without an id or seen twice gives up. -/
def chatMessages (scope : ChatScope) (contacts : List JsString) :
    List JsString → List ChatCapture → List (Except Abort (Option Source))
  | _, [] => []
  | visited, chat :: chats =>
    (if !Chat.isId chat.chatId || visited.contains chat.chatId then .error .unchanged else .ok none) ::
      chat.messages.map (chatSource rt observation scope contacts chat) ++
      chatMessages scope contacts (chat.chatId :: visited) chats

/-- `none` for an exception. -/
def appendCrmControlArchivedChatSources : Option Request :=
  if !archivable request then some request
  else
    match chatScope rt observation request manifest connection with
    | .error _ => none
    | .ok none => some request
    | .ok (some scope) =>
      match contactIds ((observation.snapshot.get "deal").get "raw") with
      | none => none
      | some contacts => appendSources request (chatMessages rt observation scope contacts [] scope.history.chats)

end Chats

/-! ## Mails -/

section Mails

variable (rt : ArchiveRuntime) (observation : Observation) (request : Request) (manifest : Manifest)
  (connection : Connection)

/-- `/^[1-9]\d*$/`. -/
def isNumber : JsString → Bool
  | [] => false
  | c :: rest => between '1' '9' c && rest.all isDigit

/-- A value that JavaScript takes for true. -/
def truthy : JsValue → Bool
  | .undefined | .null | .bool false | .num (some 0) | .str [] => false
  | _ => true

/-- The archive, the request and the connection belong to the observation; the stage entry of the request. -/
def mailScope : Except Abort (Option ℤ) :=
  let deal := observation.snapshot.get "deal"
  let raw := deal.get "raw"
  let browser := observation.snapshot.get "browserSources"
  match observation.dealExternalId.filter (· ≠ []) with
  | none => .ok none
  | some dealExternalId =>
    if !truthy browser || !truthy raw || !isTrue ((observation.snapshot.get "sourceCompleteness").get "deal") ||
        !(deal.get "id").isText observation.dealId ||
        !sameText (deal.get "responsibleId") observation.managerId then .ok none
    else
      match (raw.get "id").text with
      | none => .error .thrown
      | some rawId =>
        match request.stageEnteredAt.bind rt.dateParse, connection.accountId.filter (· ≠ []) with
        | some stage, some accountId =>
          if rawId ≠ dealExternalId || request.dealId ≠ observation.dealId ||
              some request.ownerId ≠ observation.managerId ||
              rt.dateParse request.observedAt ≠ some observation.observedAt ||
              !(browser.get "connectionId").isText connection.id ||
              !(browser.get "accountExternalId").isText accountId ||
              manifest.connectionId ≠ some connection.id || manifest.accountExternalId ≠ some accountId then .ok none
          else
            match sameAccount raw accountId with
            | none => .error .thrown
            | some same =>
              match rt.dateParse manifest.startedAt, rt.dateParse manifest.finishedAt with
              | some start, some finish =>
                if !same || manifest.dealExternalId ≠ dealExternalId ||
                    manifest.history.dealExternalId ≠ dealExternalId || start > finish ||
                    finish > observation.observedAt || !(browser.get "startedAt").isText manifest.startedAt ||
                    !(browser.get "finishedAt").isText manifest.finishedAt ||
                    32 < manifest.history.threads.length then .ok none
                else .ok (some stage)
              | _, _ => .ok none
        | _, _ => .ok none

/-- The native contact of the deal that alone sent the message. -/
def mailSender (contacts : List JsString) (message : MailMessage) : Option JsString :=
  match message.participants with
  | some ⟨some [sender], []⟩ =>
    if sender.type = js "contact" then sender.id.filter fun senderId => senderId ≠ [] && contacts.contains senderId
    else none
  | _ => none

/-- The native contact identity must belong to this deal; an email or display name alone is not enough. -/
def mailBound (thread : MailThread) (message : MailMessage) : Bool :=
  thread.binding = .deal || manifest.history.entries.any fun entry => entry.binding = .deal &&
    some entry.entityId = observation.dealExternalId &&
    entry.mail.any fun mail => mail.threadId = thread.id && mail.messageId = message.id && !mail.sent

def mailSourceId (thread : MailThread) (message : MailMessage) : JsString :=
  js "mail:" ++ thread.id ++ js ":" ++ message.id

/-- The source of a message, if it gives one. -/
def mailSource (stage : ℤ) (contacts : List JsString) (thread : MailThread) (message : MailMessage) : Option Source :=
  match rt.dateParse message.occurredAt, mailSender contacts message, rt.mailText message.content with
  | some at', some sender, some text =>
    if message.sent || at' < stage || observation.observedAt < at' || !isNumber message.id ||
        !mailBound observation manifest thread message then none
    else some {
      id := mailSourceId thread message, sourceHash := rt.textHash text, dealId := observation.dealId
      ownerId := observation.managerId.getD [], subjectId := none, kind := .customerMessage, actor := .customer
      actorId := some (js "contact:" ++ sender), direction := .incoming, text, createdAt := some (isoString at') }
  | _, _, _ => none

/-- The messages of a thread; one without a number, or with too many messages, gives up. -/
def mailMessages (stage : ℤ) (contacts : List JsString) (thread : MailThread) :
    List (Except Abort (Option Source)) :=
  (if !isNumber thread.id || 1000 < thread.messages.length then .error .unchanged else .ok none) ::
    thread.messages.map fun message => .ok (mailSource rt observation manifest stage contacts thread message)

/-- `String(contact.id)` of a contact that is null throws. -/
def mailContactIds (raw : JsValue) : Option (List JsString) :=
  if (((raw.get "_embedded").get "contacts").arr?.getD []).any Chat.nullish then none else contactIds raw

/-- `none` for an exception. -/
def appendCrmControlArchivedMailSources : Option Request :=
  if !archivable request then some request
  else
    match mailScope rt observation request manifest connection with
    | .error _ => none
    | .ok none => some request
    | .ok (some stage) =>
      match mailContactIds ((observation.snapshot.get "deal").get "raw") with
      | none => none
      | some contacts =>
        appendSources request (manifest.history.threads.flatMap (mailMessages rt observation manifest stage contacts))

end Mails

/-! ## The preflight of a request -/

/-- The request with the sources of the archive, as far as it can be read. -/
def trustedRequest (rt : ArchiveRuntime) (observation : Observation) (expected : Request)
    (archive : Option (Manifest × Connection)) : Request :=
  match archive with
  | none => expected
  | some (manifest, connection) =>
    match appendCrmControlArchivedChatSources rt observation expected manifest connection with
    | none => expected
    | some trusted => (appendCrmControlArchivedMailSources rt observation trusted manifest connection).getD trusted

/-- A finding that leaves its fact uncertain. -/
def uncertainFinding (fact : Fact) : JsValue :=
  .obj [(js "fact", .str (js fact.code)), (js "state", .str (js "uncertain")), (js "evidence", .arr [])]

/-- A response to the request that leaves every fact uncertain. -/
def preflightResponse (request : Request) : JsValue :=
  .obj [
    (js "schemaVersion", .num (some 1)),
    (js "requestId", .str request.requestId),
    (js "check", .str (js request.check.code)),
    (js "subjectId", (request.subjectId.map .str).getD .null),
    (js "inspectedSourceIds", .arr (request.sources.map fun source => .str source.id)),
    (js "findings", .arr ((requiredFacts request.check).map uncertainFinding))]

/-- `enqueue` takes the request. -/
def accepted (rt : Runtime) (request : Request) : Bool :=
  (validateCrmControlSemanticResponse rt request (preflightResponse request)).any fun result =>
    result.status ≠ .invalid

end AmoAnalytics.CrmControl.Semantic
