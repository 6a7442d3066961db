import AmoAnalytics.Lib.JsonRead
import AmoAnalytics.Lib.Regex

/-!
# The messages of archived webhooks

`normalizeCrmControlWebhook` of `crm-control-source.normalizer.ts`: the participants, the time and the entity binding
of one archived row, with the digest of its contents. The digest, the lower case of a text and the check of a link
are parameters.
-/

namespace AmoAnalytics.CrmControl.Source

open JsText AmoAnalytics.Json Regex

/-! ## Rows and messages -/

structure Runtime where
  toLowerCase : JsString → JsString
  sha256 : JsString → JsString
  /-- `crmControlAttachmentUrl` of a text. -/
  attachmentUrl : JsString → Option JsString

/-- `CrmControlWebhookSourceRow`; an invalid date is none. -/
structure WebhookRow where
  id : JsString
  connectionId : JsString
  entity : JsString
  action : JsString
  payload : AmoAnalytics.Json
  receivedAt : Option ℤ
  /-- No object of the payload has a key twice. -/
  distinct : payload.Distinct

structure SourceAttachment where
  name : Option JsString
  type : Option JsString
  url : Option JsString
  fileUuid : Option JsString
  versionUuid : Option JsString
  urlUuidCandidates : List JsString
  deriving DecidableEq

inductive BindingKind
  | exactLead
  | talkUnresolved
  | contactAmbiguous
  | unbound
  | conflict
  | otherEntity
  deriving DecidableEq

structure EntityBinding where
  kind : BindingKind
  leadExternalId : Option JsString
  deriving DecidableEq

/-- A type of the actor; an array whose text is one of the types passes the check and stays an array. -/
inductive ActorKind
  | internal
  | external
  | bot
  | array
  | unknown
  deriving DecidableEq

inductive Direction
  | outgoing
  | incoming
  | unverified
  deriving DecidableEq

structure SourceRef where
  inboxId : JsString
  receivedAt : Option ℤ
  deriving DecidableEq

/-- The references of a message, of which there is at least one. -/
structure SourceRefs where
  first : SourceRef
  rest : List SourceRef
  deriving DecidableEq

/-- `CrmControlMessageEvidence`; times are milliseconds. -/
structure MessageEvidence where
  connectionId : JsString
  messageId : Option JsString
  sourceRefs : SourceRefs
  rawSha256 : JsString
  direction : Direction
  actorKind : ActorKind
  authorId : Option JsString
  authorUserId : Option JsString
  recipientId : Option JsString
  occurredAt : Option ℤ
  text : Option JsString
  origin : Option JsString
  chatId : Option JsString
  talkId : Option JsString
  contactId : Option JsString
  binding : EntityBinding
  attachments : List SourceAttachment
  eligibleAsOutgoingEvidence : Bool
  issues : List String
  deriving DecidableEq

/-! ## Values of a payload -/

/-- The integer that a number is. -/
def integer (n : JsonNumber) : Option ℤ :=
  if 0 ≤ n.exponent then
    some ((if n.negative then -1 else 1) * (n.significand * 10 ^ n.exponent.toNat : ℕ))
  else none

/-- A positive safe integer. -/
def positiveInteger (n : JsonNumber) : Option ℤ := (safeInteger (integer n)).filter (0 < ·)

/-- `[\u0000-\u001f\u007f]`. -/
def isControl (c : UInt16) : Bool := c.toNat < 32 || c = 127

def trimmed (s : JsString) : JsString := (s.dropWhile isSpace).rdropWhile isSpace

/-- `text`. -/
def textOf (value : Option AmoAnalytics.Json) : Option JsString := value.bind str?

/-- `ref`. -/
def ref : Option AmoAnalytics.Json → Option JsString
  | some (.num n) => (positiveInteger n).map fun z => js (toString z)
  | some (.str s) => if !blank s && !s.any isControl then some (trimmed s) else none
  | _ => none

/-- `/^[1-9]\d*$/`. -/
def isNumeral : JsString → Bool
  | [] => false
  | c :: rest => between '1' '9' c && rest.all isDigit

def entityId (value : Option AmoAnalytics.Json) : Option JsString := (ref value).filter isNumeral

/-- `timestamp`, in milliseconds. -/
def timestamp (value : Option AmoAnalytics.Json) : Option ℤ :=
  let seconds : Option ℤ := match value with
    | some (.num n) => integer n
    | some (.str s) => if s ≠ [] && s.all isDigit then some (number s) else none
    | _ => none
  ((safeInteger seconds).filter fun z => 0 < z && z ≤ 253402300799).map (· * 1000)

/-- `String(value ?? '')`. -/
def asText (value : Option AmoAnalytics.Json) : Option JsString :=
  match value with
  | none => some []
  | some .null => some []
  | some v => v.asText

inductive EntityKind
  | lead
  | contact
  | other
  deriving DecidableEq

/-- `entityKind`; none inside is null. -/
def entityKind (rt : Runtime) (value : Option AmoAnalytics.Json) : Option (Option EntityKind) := do
  let kind := rt.toLowerCase (← asText value)
  some (if [js "lead", js "leads", js "2"].contains kind then some .lead
    else if [js "contact", js "contacts", js "1"].contains kind then some .contact
    else if kind = [] then none
    else some .other)

/-- A pair of an entity's kind and its id, when both are there. -/
def entityPair (rt : Runtime) (kind id : Option AmoAnalytics.Json) : Option (Option (EntityKind × JsString)) := do
  let kind ← entityKind rt kind
  some (kind.bind fun kind => (entityId id).map fun id => (kind, id))

/-- `binding`, from the pairs that are given. -/
def bindingOf (pairs : List (EntityKind × JsString)) (talkId contactId : Option JsString) : EntityBinding :=
  match pairs with
  | [first, second] => if first ≠ second then ⟨.conflict, none⟩ else ofPair (some first)
  | pairs => ofPair pairs.head?
where
  ofPair (pair : Option (EntityKind × JsString)) : EntityBinding :=
    match pair with
    | some (.lead, id) => ⟨.exactLead, some id⟩
    | some (.other, _) => ⟨.otherEntity, none⟩
    | pair =>
      if talkId.isSome then ⟨.talkUnresolved, none⟩
      else ⟨if pair.isSome || contactId.isSome then .contactAmbiguous else .unbound, none⟩

def binding (rt : Runtime) (payload : AmoAnalytics.Json) (talkId contactId : Option JsString)
    : Option EntityBinding := do
  let entity ← entityPair rt (payload.get "entity_type") (payload.get "entity_id")
  let element ← entityPair rt (payload.get "element_type") (payload.get "element_id")
  some (bindingOf ([entity, element].filterMap fun pair => pair) talkId contactId)

/-! ## Attachments -/

def hexDigit : Regex UInt16 := one fun c => isDigit c || between 'a' 'f' c || between 'A' 'F' c

def uuid : Regex UInt16 :=
  seqs [rep 8 8 hexDigit, lit "-", rep 4 4 hexDigit, lit "-", rep 4 4 hexDigit, lit "-", rep 4 4 hexDigit, lit "-",
    rep 12 12 hexDigit]

/-- `UUID.test(s)`. -/
def isUuid (s : JsString) : Bool := (run uuid (none, s)).any fun rest => rest.2.isEmpty

def attachment (rt : Runtime) (item : AmoAnalytics.Json) : SourceAttachment :=
  let url := (textOf (item.get "link")).bind rt.attachmentUrl
  { name := textOf (item.get "file_name")
    type := textOf (item.get "type")
    url
    fileUuid := ((textOf (item.get "file_uuid")).filter isUuid).map rt.toLowerCase
    versionUuid := ((textOf (item.get "version_uuid")).filter isUuid).map rt.toLowerCase
    urlUuidCandidates := (url.map fun url => JsMap.distinct ((matchAll uuid url).map rt.toLowerCase)).getD [] }

def SourceAttachment.rejected (item : SourceAttachment) : Bool := item.url.isNone

/-! ## A message -/

/-- `canonicalJson`. -/
def canonicalJson (value : AmoAnalytics.Json) : JsString := sortedText codeUnits value

def WebhookRow.contents (row : WebhookRow) : AmoAnalytics.Json :=
  .obj [(js "entity", .str row.entity), (js "action", .str row.action), (js "payload", row.payload)]

def WebhookRow.digest (rt : Runtime) (row : WebhookRow) : JsString := rt.sha256 (canonicalJson row.contents)

/-- Rows of other entities and actions hold no message. -/
def WebhookRow.holdsMessage (row : WebhookRow) : Bool :=
  [js "message", js "outgoing_message"].contains row.entity && row.action = js "add"

/-- `['internal', 'external', 'bot'].includes(String(author.type)) ? author.type : 'unknown'`. -/
def actorKind : Option AmoAnalytics.Json → Option ActorKind
  | none => some .unknown
  | some (.arr items) => (AmoAnalytics.Json.arr items).asText.map fun text =>
      if [js "internal", js "external", js "bot"].contains text then .array else .unknown
  | some type => type.asText.map fun text =>
      if text = js "internal" then .internal
      else if text = js "external" then .external
      else if text = js "bot" then .bot
      else .unknown

def isNullish (value : Option AmoAnalytics.Json) : Bool :=
  match value with
  | none => true
  | some .null => true
  | _ => false

/-- `value === text`. -/
def isText (value : Option AmoAnalytics.Json) (text : String) : Bool := textOf value = some (js text)

def directionOf (entity : JsString) (actorKind : ActorKind) (recipientType declared : Option AmoAnalytics.Json)
    : Direction :=
  let outgoing := entity = js "outgoing_message" && (actorKind = .internal || actorKind = .bot) &&
    isText recipientType "external" && (isNullish declared || isText declared "outgoing")
  let incoming := entity = js "message" && actorKind = .external &&
    (isNullish recipientType || isText recipientType "internal") && (isNullish declared || isText declared "incoming")
  if incoming then .incoming else if outgoing then .outgoing else .unverified

def issueIf (condition : Bool) (code : String) : List String := if condition then [code] else []

/-- `normalizeCrmControlWebhook`; none outside when reading the payload throws. -/
def normalizeCrmControlWebhook (rt : Runtime) (row : WebhookRow) : Option (Option MessageEvidence) :=
  if !row.holdsMessage then some none
  else do
    let payload := row.payload
    let author := (payload.get "author").getD .null
    let recipient := (payload.get "recipient").getD .null
    let actorKind ← actorKind (author.get "type")
    let direction := directionOf row.entity actorKind (recipient.get "type") (payload.get "type")
    let messageId := ref (payload.get "id")
    let occurredAt := timestamp (payload.get "created_at")
    let authorId := ref (author.get "id")
    let recipientId := ref (recipient.get "id")
    let talkId := entityId (payload.get "talk_id")
    let contactId := entityId (payload.get "contact_id")
    let attachments :=
      if isNullish (payload.get "attachment") then [] else [attachment rt ((payload.get "attachment").getD .null)]
    let resolvedBinding ← binding rt payload talkId contactId
    let issues :=
      issueIf (!payload.isObject) "INVALID_PAYLOAD" ++
      issueIf messageId.isNone "MISSING_MESSAGE_ID" ++
      issueIf occurredAt.isNone "INVALID_SOURCE_TIME" ++
      issueIf row.receivedAt.isNone "INVALID_RECEIPT_TIME" ++
      issueIf (occurredAt.any fun time => row.receivedAt.any (· < time)) "SOURCE_TIME_AFTER_RECEIPT" ++
      issueIf (direction = .unverified) "UNVERIFIED_DIRECTION" ++
      issueIf (authorId.isNone || (direction = .outgoing && recipientId.isNone)) "MISSING_PARTICIPANT_ID" ++
      issueIf (resolvedBinding.kind = .conflict) "CONFLICTING_ENTITY_BINDINGS" ++
      issueIf (attachments.any (·.rejected)) "REJECTED_ATTACHMENT_URL"
    some (some
      { connectionId := row.connectionId
        messageId
        sourceRefs := ⟨⟨row.id, row.receivedAt⟩, []⟩
        rawSha256 := row.digest rt
        direction
        actorKind
        authorId
        authorUserId := if actorKind = .internal then entityId (author.get "user_id") else none
        recipientId
        occurredAt
        text := textOf (payload.get "text")
        origin := textOf (payload.get "origin")
        chatId := ref (payload.get "chat_id")
        talkId
        contactId
        binding := resolvedBinding
        attachments
        eligibleAsOutgoingEvidence :=
          direction = .outgoing && issues.all fun issue => issue = "REJECTED_ATTACHMENT_URL"
        issues })

end AmoAnalytics.CrmControl.Source
