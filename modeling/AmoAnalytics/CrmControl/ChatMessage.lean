import AmoAnalytics.CrmControl.ChatBinding
import AmoAnalytics.CrmControl.SemanticText
import AmoAnalytics.Lib.JsMap

/-!
# The author of a chat message

`normalizeCrmControlChatMessage` of `crm-control-chat-message.ts`: the text, the time, the author and the direction of
a bound message. Nobody is internal or external without a catalog entry or a native contact that says so.
-/

namespace AmoAnalytics.CrmControl.Chat

open JsText

/-- Besides the runtime of the semantic check: the digest of a capture, and the attachments of a message with what is
wrong with them. -/
structure Runtime extends Semantic.Runtime where
  sourceHash : JsValue → Option JsString
  attachments : JsValue → List JsValue × List String

structure AccountUser where
  amojoId : JsString
  crmUserId : JsString

structure ExternalContact where
  chatId : JsString
  contactId : JsString
  amojoId : JsString

inductive TimestampUnit
  | seconds
  | milliseconds
  deriving DecidableEq

structure MessageInput where
  value : JsValue
  binding : BindingResult
  accountUsers : List AccountUser
  accountUnknownActorIds : Option (List JsString) := none
  externalContact : Option ExternalContact := none
  createdAtUnit : TimestampUnit := .seconds

inductive ActorKind
  | internal
  | external
  | bot
  | unknown
  deriving DecidableEq

inductive Direction
  | incoming
  | outgoing
  | unverified
  deriving DecidableEq

structure NormalizedMessage where
  messageId : JsString
  chatId : JsString
  talkId : JsString
  contactId : JsString
  connectionId : JsString
  rawSha256 : JsString
  text : Option JsString
  textSha256 : Option JsString
  occurredAt : Option JsString
  timestampUnit : TimestampUnit
  actorKind : ActorKind
  authorId : Option JsString
  authorUserId : Option JsString
  recipientId : Option JsString
  direction : Direction
  leadExternalId : JsString
  bindingProof : BindingProof
  attachments : List JsValue
  eligibleAsSemanticSource : Bool
  eligibleAsOutgoingEvidence : Bool
  issues : List String

structure MessageResult where
  message : Option NormalizedMessage
  reasonCodes : List String

/-- `optionalText(value, max)`. -/
def optionalText (value : JsValue) (max : ℕ) : Option JsString := value.str?.filter fun s => s.length ≤ max

def issueIf (condition : Bool) (code : String) : List String := if condition then [code] else []

/-! ## The catalog of the account -/

/-- `users` and `ambiguousUsers`. -/
structure Catalog where
  users : List (JsString × JsString) := []
  ambiguous : List JsString := []
  invalid : Bool := false

def Catalog.add (catalog : Catalog) (user : AccountUser) : Catalog :=
  if !isId user.amojoId || !isNumericId user.crmUserId then { catalog with invalid := true }
  else
    { catalog with
      users := JsMap.set user.amojoId user.crmUserId catalog.users
      ambiguous :=
        if (JsMap.get? user.amojoId catalog.users).any (· ≠ user.crmUserId) then user.amojoId :: catalog.ambiguous
        else catalog.ambiguous }

/-- The users that are known under one id only. -/
def readCatalog (users : List AccountUser) (unknown : List JsString) : Catalog :=
  let catalog := users.foldl Catalog.add { ambiguous := unknown }
  { catalog with users := catalog.users.filter fun user => !catalog.ambiguous.contains user.1 }

def Catalog.issues (catalog : Catalog) : List String :=
  issueIf catalog.invalid "CHAT_ACCOUNT_CATALOG_INVALID" ++
    issueIf (!catalog.ambiguous.isEmpty) "CHAT_ACCOUNT_CATALOG_CONFLICT"

def Catalog.has (catalog : Catalog) (amojoId : JsString) : Bool := (JsMap.get? amojoId catalog.users).isSome

/-! ## The time -/

def nullish : JsValue → Bool
  | .undefined => true
  | .null => true
  | _ => false

/-- The time of the message in milliseconds, or what is wrong with it. -/
def occurredAt (rt : Runtime) (value : JsValue) (unit : TimestampUnit) (auxiliary : JsValue) (proof : BindingProof) :
    Except String ℤ :=
  match positive value with
  | none => .error "CHAT_TIMESTAMP_INVALID"
  | some stamp =>
    match (safeInteger (some (if unit = .seconds then stamp * 1000 else stamp))).filter (· ≤ 253_402_300_799_999) with
    | none => .error "CHAT_TIMESTAMP_INVALID"
    | some milliseconds =>
      let exact := if nullish auxiliary then some milliseconds
        else (positive auxiliary).filter fun t => (if unit = .seconds then t / 1000 else t) = stamp
      match exact with
      | none => .error "CHAT_TIMESTAMP_FIELDS_CONFLICT"
      | some milliseconds =>
        match rt.dateParse proof.scope.observedAt, rt.dateParse proof.messageCapturedAt with
        | some observedAt, some capturedAt =>
          if milliseconds ≤ observedAt ∧ milliseconds ≤ capturedAt then .ok milliseconds
          else .error "CHAT_TIMESTAMP_AFTER_CAPTURE"
        | _, _ => .error "CHAT_TIMESTAMP_AFTER_CAPTURE"

/-! ## The author and the direction -/

/-- What is known about the two sides of a message. -/
structure Parties where
  bot : Bool
  authorId : Option JsString
  recipientId : Option JsString
  externalId : Option JsString
  catalog : Catalog

namespace Parties

variable (parties : Parties)

def authorExternal : Bool := parties.authorId.isSome && parties.externalId = parties.authorId

def recipientExternal : Bool := parties.recipientId.isSome && parties.externalId = parties.recipientId

def authorUserId : Option JsString := parties.authorId.bind fun authorId => JsMap.get? authorId parties.catalog.users

def roleConflict : Bool :=
  (parties.externalId.any fun id => parties.catalog.has id || parties.catalog.ambiguous.contains id) ||
    parties.authorId.any parties.catalog.ambiguous.contains

def actorKind : ActorKind :=
  if parties.roleConflict then .unknown
  else if parties.bot then .bot
  else if parties.authorUserId.isSome then .internal
  else if parties.authorExternal then .external
  else .unknown

def direction : Direction :=
  if parties.roleConflict || parties.authorId.isNone || parties.authorId = parties.recipientId then .unverified
  else if parties.authorExternal then .incoming
  else if parties.recipientExternal && (parties.actorKind = .internal || parties.actorKind = .bot) then .outgoing
  else .unverified

def issues : List String :=
  issueIf parties.roleConflict "CHAT_PARTICIPANT_ROLE_CONFLICT" ++
    issueIf parties.authorId.isNone "CHAT_AUTHOR_ID_MISSING" ++
    issueIf (parties.actorKind = .unknown) "CHAT_AUTHOR_UNVERIFIED" ++
    issueIf (parties.direction = .unverified) "CHAT_DIRECTION_UNVERIFIED"

end Parties

/-- The native contact of the chat, when it is the contact of the talk. -/
def externalId (proof : BindingProof) (contact : Option ExternalContact) : Option JsString :=
  (contact.filter fun contact => contact.chatId = proof.scope.chatId && contact.contactId = proof.contactId &&
    isId contact.amojoId).map (·.amojoId)

def externalIssue (proof : BindingProof) (contact : Option ExternalContact) : List String :=
  issueIf (externalId proof contact).isNone
    (if contact.isSome then "CHAT_EXTERNAL_CONTACT_CONFLICT" else "CHAT_EXTERNAL_CONTACT_UNVERIFIED")

/-! ## The message -/

/-- Why a bound message is not read. -/
def rejection (rt : Runtime) (input : MessageInput) (proof : BindingProof) : Option String :=
  let body := input.value
  if !(body.get "message").isObject || id (body.get "id") ≠ some proof.messageId ||
      numericId ((body.get "dialog").get "id") ≠ some proof.talkId then some "CHAT_MESSAGE_SCOPE_CONFLICT"
  else
    match rt.sourceHash body with
    | none => some "CHAT_MESSAGE_SOURCE_INVALID"
    | some sourceHash =>
      if sourceHash ≠ proof.messageSourceHash then some "CHAT_MESSAGE_SOURCE_CHANGED"
      else if 10_000 < input.accountUsers.length then some "CHAT_ACCOUNT_CATALOG_INVALID"
      else if input.accountUnknownActorIds.any fun ids => 10_000 < ids.length || ids.any (!isId ·) then
        some "CHAT_ACCOUNT_CATALOG_INVALID"
      else none

def partiesOf (input : MessageInput) (proof : BindingProof) : Parties where
  bot := match (input.value.get "author").get "bot" with
    | .bool bot => bot
    | _ => false
  authorId := id ((input.value.get "author").get "id")
  recipientId := id ((input.value.get "recipient").get "id")
  externalId := externalId proof input.externalContact
  catalog := readCatalog input.accountUsers (input.accountUnknownActorIds.getD [])

/-- The message of a capture that is not rejected. -/
def readMessage (rt : Runtime) (input : MessageInput) (proof : BindingProof) : NormalizedMessage :=
  let body := input.value
  let content := body.get "message"
  let parties := partiesOf input proof
  let time := occurredAt rt (body.get "created_at") input.createdAtUnit (body.get "msec_created_at") proof
  let text := optionalText (content.get "text") 50_000
  let files := rt.attachments content
  { messageId := proof.messageId
    chatId := proof.scope.chatId
    talkId := proof.talkId
    contactId := proof.contactId
    connectionId := proof.scope.connectionId
    rawSha256 := proof.messageSourceHash
    text
    textSha256 := text.map rt.textHash
    occurredAt := time.toOption.map Semantic.isoString
    timestampUnit := input.createdAtUnit
    actorKind := parties.actorKind
    authorId := parties.authorId
    authorUserId := if parties.actorKind = .internal then parties.authorUserId else none
    recipientId := parties.recipientId
    direction := parties.direction
    leadExternalId := proof.scope.dealExternalId
    bindingProof := proof
    attachments := files.1
    eligibleAsSemanticSource := time.toOption.isSome && text.any (!blank ·) && parties.direction ≠ .unverified &&
      (parties.actorKind = .internal || parties.actorKind = .external)
    eligibleAsOutgoingEvidence := time.toOption.isSome && parties.direction = .outgoing &&
      (parties.actorKind = .internal || parties.actorKind = .bot)
    issues := JsMap.distinct (parties.catalog.issues ++ externalIssue proof input.externalContact ++ parties.issues ++
      (match time with
        | .error code => [code]
        | .ok _ => []) ++
      issueIf (!nullish (content.get "text") && text.isNone) "CHAT_TEXT_INVALID_OR_TOO_LARGE" ++ files.2) }

def normalizeCrmControlChatMessage (rt : Runtime) (input : MessageInput) : MessageResult :=
  match input.binding.status, input.binding.proof with
  | .bound, some proof =>
    match rejection rt input proof with
    | some code => ⟨none, [code]⟩
    | none => ⟨some (readMessage rt input proof), (readMessage rt input proof).issues⟩
  | _, _ => ⟨none, ["CHAT_BINDING_REQUIRED"]⟩

/-! ## Identifiers of a message -/

theorem normalize_message {rt : Runtime} {input : MessageInput} {message : NormalizedMessage}
    (h : (normalizeCrmControlChatMessage rt input).message = some message) :
    ∃ proof, input.binding.proof = some proof ∧ rejection rt input proof = none ∧
      message = readMessage rt input proof := by
  cases hproof : input.binding.proof with
  | none =>
    cases hstatus : input.binding.status <;> simp [normalizeCrmControlChatMessage, hproof, hstatus] at h
  | some proof =>
    cases hrejection : rejection rt input proof with
    | some code =>
      cases hstatus : input.binding.status <;> simp [normalizeCrmControlChatMessage, hproof, hstatus, hrejection] at h
    | none =>
      cases hstatus : input.binding.status <;>
        simp [normalizeCrmControlChatMessage, hproof, hstatus, hrejection] at h
      exact ⟨proof, rfl, hrejection, h.symm⟩

theorem Catalog.foldl_add_users {users : List AccountUser} {catalog : Catalog}
    (h : ∀ user ∈ catalog.users, isNumericId user.2 = true) :
    ∀ user ∈ (users.foldl Catalog.add catalog).users, isNumericId user.2 = true := by
  induction users generalizing catalog with
  | nil => exact h
  | cons user users ih =>
    refine ih fun known hknown => ?_
    unfold Catalog.add at hknown
    by_cases hvalid : (!isId user.amojoId || !isNumericId user.crmUserId) = true
    · rw [if_pos hvalid] at hknown
      exact h known hknown
    · rw [if_neg hvalid] at hknown
      rcases JsMap.mem_of_mem_set hknown with rfl | hknown
      · simp only [Bool.or_eq_true, Bool.not_eq_true', not_or, Bool.not_eq_false] at hvalid
        exact hvalid.2
      · exact h known hknown

/-- The ids of the catalog's users are numeric. -/
theorem readCatalog_users {users : List AccountUser} {unknown : List JsString} {amojoId crmUserId : JsString}
    (h : JsMap.get? amojoId (readCatalog users unknown).users = some crmUserId) : isNumericId crmUserId = true := by
  have hmem := (List.mem_filter.1 (JsMap.mem_of_get? h)).1
  exact Catalog.foldl_add_users (fun _ h => absurd h List.not_mem_nil) _ hmem

theorem js_length_le (s : String) : (js s).length ≤ 2 * s.length := by
  have hencode (c : Char) : (encode c).length ≤ 2 := by
    unfold encode
    split_ifs <;> simp
  have hall (cs : List Char) : (cs.flatMap encode).length ≤ 2 * cs.length := by
    induction cs with
    | nil => exact Nat.le_refl 0
    | cons c cs ih =>
      have hc := hencode c
      rw [List.flatMap_cons, List.length_append, List.length_cons]
      omega
  rw [← String.length_toList]
  exact hall s.toList

theorem positive_lt {value : JsValue} {n : ℤ} (h : positive value = some n) : 0 < n ∧ n < 2 ^ 53 := by
  cases value with
  | num m =>
    simp only [positive, safeInteger, Option.filter_eq_some_iff, decide_eq_true_eq] at h
    obtain ⟨⟨-, hsafe⟩, hpositive⟩ := h
    exact ⟨hpositive, by omega⟩
  | _ => exact absurd h (by simp [positive])

theorem toString_length_le {n : ℤ} (h : 0 < n ∧ n < 2 ^ 53) : (toString n).length ≤ 16 := by
  obtain ⟨k, rfl⟩ := Int.eq_ofNat_of_zero_le h.1.le
  have hk : k < 10 ^ 16 := by omega
  exact (Nat.length_repr_le_iff (by decide)).2 hk

/-- An identifier is short: at most 100 characters, or the digits of a safe integer. -/
theorem id_length {value : JsValue} {s : JsString} (h : id value = some s) : s.length ≤ 100 := by
  cases value with
  | str text =>
    simp only [id] at h
    split_ifs at h with hid
    exact Option.some.inj h ▸ isId_length hid
  | num m =>
    obtain ⟨n, hn, rfl⟩ := Option.map_eq_some_iff.1 h
    have hunits := js_length_le (toString n)
    have hdigits := toString_length_le (positive_lt hn)
    omega
  | _ => simp [id, positive] at h

end AmoAnalytics.CrmControl.Chat
