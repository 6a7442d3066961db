import AmoAnalytics.Lib.IsoInstant
import AmoAnalytics.Lib.JsValue

/-!
# The deal of a chat message

`bindCrmControlChatMessage` of `crm-control-chat-binding.ts`: the message names its talk, and two equal captures of
that talk name the deal. The digest of a capture is a parameter; it throws for one that is too large.
-/

namespace AmoAnalytics.CrmControl.Chat

open JsText

/-! ## Values of a capture -/

def isIdUnit (c : UInt16) : Bool := between 'a' 'z' c || between 'A' 'Z' c || isDigit c || oneOf "_-" c

/-- `/^[a-zA-Z0-9_-]{1,100}$/`. -/
def isId (s : JsString) : Bool := 1 ≤ s.length && s.length ≤ 100 && s.all isIdUnit

/-- `/^[1-9]\d{0,19}$/`. -/
def isNumericId : JsString → Bool
  | [] => false
  | c :: rest => between '1' '9' c && rest.length ≤ 19 && rest.all isDigit

/-- A positive safe integer. -/
def positive : JsValue → Option ℤ
  | .num n => (safeInteger n).filter (0 < ·)
  | _ => none

/-- An identifier, or a positive number as a text. -/
def id : JsValue → Option JsString
  | .str s => if isId s then some s else none
  | value => (positive value).map fun n => js (toString n)

def numericId (value : JsValue) : Option JsString := (id value).filter isNumericId

/-- An instant with seconds and `Z`. -/
def instant (s : JsString) : Option ℤ :=
  if s.getLast? = (js "Z").head? then ((IsoInstant.parse s).filter (·.withSeconds)).map (·.ms) else none

/-! ## Captures and proofs -/

structure ChatScope where
  connectionId : JsString
  accountExternalId : JsString
  dealExternalId : JsString
  chatId : JsString
  observedAt : JsString

structure MessageCapture where
  requestedChatId : JsString
  capturedAt : JsString
  value : JsValue

structure TalkCapture where
  requestedTalkId : JsString
  capturedAt : JsString
  httpStatus : ℤ
  value : JsValue

structure BindingInput where
  scope : ChatScope
  collectionStartedAt : JsString
  collectionFinishedAt : JsString
  message : MessageCapture
  talk : TalkCapture
  confirmation : TalkCapture

structure BindingProof where
  scope : ChatScope
  messageId : JsString
  talkId : JsString
  contactId : JsString
  collectionStartedAt : JsString
  collectionFinishedAt : JsString
  messageCapturedAt : JsString
  talkCapturedAt : JsString
  confirmedAt : JsString
  messageSourceHash : JsString
  talkSourceHash : JsString
  confirmationSourceHash : JsString

inductive BindingStatus
  | bound
  | otherDeal
  | otherEntity
  | notBound
  | unverified
  deriving DecidableEq

structure BindingResult where
  status : BindingStatus
  reasonCodes : List String
  proof : Option BindingProof

/-- `result(status, code)`. -/
def refused (status : BindingStatus) (code : String) : BindingResult := ⟨status, [code], none⟩

/-! ## The talk -/

inductive EntityType
  | lead
  | customer
  deriving DecidableEq

structure TalkRelation where
  talkId : JsString
  accountId : JsString
  chatId : JsString
  contactId : JsString
  entityType : Option EntityType
  entityId : Option JsString
  deriving DecidableEq

/-- `entity_type`, one of null, lead and customer. -/
def entityType : JsValue → Option (Option EntityType)
  | .null => some none
  | .str s => if s = js "lead" then some (some .lead) else if s = js "customer" then some (some .customer) else none
  | _ => none

/-- `entity_id`, null or an identifier. -/
def entityId : JsValue → Option (Option JsString)
  | .null => some none
  | value => (numericId value).map some

/-- At most one embedded entity. -/
def embedded (value : JsValue) : Option (List JsValue) := value.arr?.filter fun items => items.length ≤ 1

/-- The embedded entity is the expected one. -/
def embeds (items : List JsValue) (expected : Option JsString) : Bool :=
  match expected, items with
  | none, [] => true
  | some entityId, [item] => numericId (item.get "id") = some entityId
  | _, _ => false

def parseTalk (body : JsValue) : Except String TalkRelation :=
  let entities := body.get "_embedded"
  match numericId (body.get "talk_id"), numericId (body.get "account_id"), id (body.get "chat_id"),
    numericId (body.get "contact_id"), entityType (body.get "entity_type"), entityId (body.get "entity_id") with
  | some talkId, some accountId, some chatId, some contactId, some entityType, some entityId =>
    if !entities.isObject then .error "TALK_SCHEMA_INVALID"
    else if entityType.isNone ≠ entityId.isNone then .error "TALK_ENTITY_CONFLICT"
    else
      match embedded (entities.get "contacts"), embedded (entities.get "leads"),
        embedded (entities.get "customers") with
      | some contacts, some leads, some customers =>
        if !embeds contacts (some contactId) then .error "TALK_CONTACT_CONFLICT"
        else if !embeds leads (entityId.filter fun _ => entityType = some .lead) ||
            !embeds customers (entityId.filter fun _ => entityType = some .customer) then
          .error "TALK_EMBEDDED_ENTITY_CONFLICT"
        else .ok ⟨talkId, accountId, chatId, contactId, entityType, entityId⟩
      | _, _, _ => .error "TALK_EMBEDDED_INVALID"
  | _, _, _, _, _, _ => .error "TALK_SCHEMA_INVALID"

/-! ## The binding -/

def scopeValid (scope : ChatScope) : Bool :=
  !blank scope.connectionId && scope.connectionId.length ≤ 200 && isNumericId scope.accountExternalId &&
    isNumericId scope.dealExternalId && isId scope.chatId

/-- The captures lie in the collection in their order, and the collection before the observation. -/
def capturedInOrder (input : BindingInput) : Bool :=
  match instant input.collectionStartedAt, instant input.collectionFinishedAt, instant input.scope.observedAt,
    instant input.message.capturedAt, instant input.talk.capturedAt, instant input.confirmation.capturedAt with
  | some started, some finished, some observed, some messageAt, some talkAt, some confirmationAt =>
    started ≤ messageAt && messageAt ≤ confirmationAt && messageAt ≤ finished && started ≤ talkAt &&
      talkAt ≤ confirmationAt && confirmationAt ≤ finished && finished ≤ observed
  | _, _, _, _, _, _ => false

/-- Why two captures of a talk do not bind its messages to the deal. -/
def relationProblem (scope : ChatScope) (dialogId : JsString) (first last : TalkRelation) :
    Option (BindingStatus × String) :=
  if first.talkId ≠ dialogId || last.talkId ≠ dialogId then some (.unverified, "TALK_MESSAGE_ID_CONFLICT")
  else if first.accountId ≠ scope.accountExternalId || last.accountId ≠ scope.accountExternalId then
    some (.unverified, "TALK_ACCOUNT_CONFLICT")
  else if first.chatId ≠ scope.chatId || last.chatId ≠ scope.chatId then some (.unverified, "TALK_CHAT_CONFLICT")
  else if first ≠ last then some (.unverified, "TALK_RELATION_CHANGED")
  else
    match first.entityType with
    | none => some (.notBound, "TALK_ENTITY_MISSING")
    | some .customer => some (.otherEntity, "TALK_CUSTOMER_ENTITY")
    | some .lead => if first.entityId ≠ some scope.dealExternalId then some (.otherDeal, "TALK_OTHER_DEAL") else none

/-- The proof of the relation; without a digest of a capture there is none. -/
def bindingProof (sourceHash : JsValue → Option JsString) (input : BindingInput) (messageId dialogId : JsString)
    (relation : TalkRelation) : Option BindingProof := do
  let messageSourceHash ← sourceHash input.message.value
  let talkSourceHash ← sourceHash input.talk.value
  let confirmationSourceHash ← sourceHash input.confirmation.value
  some {
    scope := input.scope, messageId, talkId := dialogId, contactId := relation.contactId,
    collectionStartedAt := input.collectionStartedAt, collectionFinishedAt := input.collectionFinishedAt,
    messageCapturedAt := input.message.capturedAt, talkCapturedAt := input.talk.capturedAt,
    confirmedAt := input.confirmation.capturedAt, messageSourceHash, talkSourceHash, confirmationSourceHash }

/-- The message with its id and the talk it names against the two captures. -/
def bindTalk (sourceHash : JsValue → Option JsString) (input : BindingInput) (messageId dialogId : JsString) :
    BindingResult :=
  if input.talk.httpStatus ≠ 200 || input.confirmation.httpStatus ≠ 200 then
    refused .unverified "TALK_LOOKUP_UNAVAILABLE"
  else if input.talk.requestedTalkId ≠ dialogId || input.confirmation.requestedTalkId ≠ dialogId then
    refused .unverified "TALK_REQUEST_ID_CONFLICT"
  else
    match parseTalk input.talk.value, parseTalk input.confirmation.value with
    | .ok first, .ok last =>
      match relationProblem input.scope dialogId first last with
      | some (status, code) => refused status code
      | none =>
        match bindingProof sourceHash input messageId dialogId first with
        | some proof => ⟨.bound, [], some proof⟩
        | none => refused .unverified "CHAT_SOURCE_UNSERIALIZABLE_OR_TOO_LARGE"
    | .error code, _ => refused .unverified code
    | _, .error code => refused .unverified code

def bindCrmControlChatMessage (sourceHash : JsValue → Option JsString) (input : BindingInput) : BindingResult :=
  let message := input.message.value
  if !scopeValid input.scope then refused .unverified "CHAT_SCOPE_INVALID"
  else if !capturedInOrder input then refused .unverified "CHAT_CAPTURE_TIME_INVALID"
  else if input.message.requestedChatId ≠ input.scope.chatId then refused .unverified "CHAT_REQUEST_SCOPE_CONFLICT"
  else
    match id (message.get "id") with
    | none => refused .unverified "CHAT_MESSAGE_INVALID"
    | some messageId =>
      if !(message.get "chat_id").isUndefined && id (message.get "chat_id") ≠ some input.scope.chatId then
        refused .unverified "CHAT_MESSAGE_CHAT_CONFLICT"
      else
        match numericId ((message.get "dialog").get "id") with
        | none => refused .notBound "CHAT_MESSAGE_DIALOG_MISSING"
        | some dialogId => bindTalk sourceHash input messageId dialogId

/-! ## Facts about identifiers -/

theorem isId_length {s : JsString} (h : isId s = true) : s.length ≤ 100 := by
  simp only [isId, Bool.and_eq_true, decide_eq_true_eq] at h
  exact h.1.2

theorem isNumericId_length {s : JsString} (h : isNumericId s = true) : s.length ≤ 20 := by
  cases s with
  | nil => exact absurd h Bool.false_ne_true
  | cons c rest =>
    simp only [isNumericId, Bool.and_eq_true, decide_eq_true_eq] at h
    rw [List.length_cons]
    omega

theorem of_not_refused {condition : Prop} [Decidable condition] {status : BindingStatus} {code : String}
    {result : BindingResult} {proof : BindingProof}
    (h : (if condition then refused status code else result).proof = some proof) :
    ¬condition ∧ result.proof = some proof := by
  by_cases hc : condition
  · rw [if_pos hc] at h
    exact absurd h (Option.some_ne_none proof).symm
  · rw [if_neg hc] at h
    exact ⟨hc, h⟩

theorem bindTalk_proof {sourceHash : JsValue → Option JsString} {input : BindingInput} {messageId dialogId : JsString}
    {proof : BindingProof} (h : (bindTalk sourceHash input messageId dialogId).proof = some proof) :
    ∃ first, parseTalk input.talk.value = .ok first ∧
      relationProblem input.scope dialogId first first = none ∧
      bindingProof sourceHash input messageId dialogId first = some proof := by
  obtain ⟨-, h⟩ := of_not_refused h
  obtain ⟨-, h⟩ := of_not_refused h
  cases hfirst : parseTalk input.talk.value with
  | error code => simp [hfirst, refused] at h
  | ok first =>
    cases hlast : parseTalk input.confirmation.value with
    | error code => simp [hfirst, hlast, refused] at h
    | ok last =>
      cases hproblem : relationProblem input.scope dialogId first last with
      | some problem => simp [hfirst, hlast, hproblem, refused] at h
      | none =>
        cases hproof : bindingProof sourceHash input messageId dialogId first with
        | none => simp [hfirst, hlast, hproblem, hproof, refused] at h
        | some found =>
          have hsame : first = last := by
            by_contra hne
            simp only [relationProblem, hne, ne_eq, not_false_eq_true, if_true] at hproblem
            split_ifs at hproblem
          subst hsame
          simp only [hfirst, hlast, hproblem, hproof] at h
          exact ⟨first, rfl, hproblem, hproof.trans h⟩

/-- What a bound message names is in the captures. -/
theorem bind_proof {sourceHash : JsValue → Option JsString} {input : BindingInput} {proof : BindingProof}
    (h : (bindCrmControlChatMessage sourceHash input).proof = some proof) :
    isId input.scope.chatId = true ∧ proof.scope = input.scope ∧
      id (input.message.value.get "id") = some proof.messageId := by
  obtain ⟨hscope, h⟩ := of_not_refused h
  obtain ⟨-, h⟩ := of_not_refused h
  obtain ⟨-, h⟩ := of_not_refused h
  have hchat : isId input.scope.chatId = true := by
    simp only [scopeValid, Bool.not_eq_true, Bool.not_eq_false', Bool.and_eq_true] at hscope
    exact hscope.2
  cases hid : id (input.message.value.get "id") with
  | none => simp [hid, refused] at h
  | some messageId =>
    simp only [hid] at h
    obtain ⟨-, h⟩ := of_not_refused h
    cases hdialog : numericId ((input.message.value.get "dialog").get "id") with
    | none => simp [hdialog, refused] at h
    | some dialogId =>
      simp only [hdialog] at h
      obtain ⟨first, -, -, hproof⟩ := bindTalk_proof h
      simp only [bindingProof, Option.bind_eq_bind, Option.bind_eq_some_iff, Option.some.injEq] at hproof
      obtain ⟨_, _, _, _, _, _, rfl⟩ := hproof
      exact ⟨hchat, rfl, rfl⟩

end AmoAnalytics.CrmControl.Chat
