import AmoAnalytics.CrmControl.SourceMessage
import AmoAnalytics.Lib.Collected

/-!
# The index of archived messages

`normalizeCrmControlWebhookRows` merges the rows of one message and keeps changed contents as conflicting revisions;
`indexCrmControlSourcesForDeals` puts every message of the connection under its deal, among the unresolved ones, or
only counts it. `localeCompare` is a parameter.
-/

namespace AmoAnalytics.CrmControl.Source

open JsText AmoAnalytics.Json

/-! ## Merging the rows -/

/-- `JSON.stringify([message.connectionId, message.messageId ?? inbox:row.id])`, as the pair. -/
abbrev MessageKey := JsString × JsString

def WebhookRow.key (row : WebhookRow) (message : MessageEvidence) : MessageKey :=
  (message.connectionId, message.messageId.getD (js "inbox:" ++ row.id))

/-- `same.sourceRefs.push(...message.sourceRefs)`. -/
def MessageEvidence.pushRefs (same message : MessageEvidence) : MessageEvidence :=
  { same with sourceRefs := ⟨same.sourceRefs.first,
      same.sourceRefs.rest ++ message.sourceRefs.first :: message.sourceRefs.rest⟩ }

/-- The revision of one digest. -/
def merge (same : Option MessageEvidence) (message : MessageEvidence) : MessageEvidence :=
  match same with
  | some same => same.pushRefs message
  | none => message

/-- The revisions of one message by their digests. -/
abbrev Variants := List (JsString × MessageEvidence)

def retain (variants : Variants) (message : MessageEvidence) : Variants :=
  JsMap.set message.rawSha256 (merge (JsMap.get? message.rawSha256 variants) message) variants

def addRow (groups : List (MessageKey × Variants)) (row : WebhookRow) (message : MessageEvidence) :
    List (MessageKey × Variants) :=
  let key := row.key message
  JsMap.set key (retain ((JsMap.get? key groups).getD []) message) groups

def conflictCode : String := "MESSAGE_ID_CONFLICT"

def MessageEvidence.conflicting (message : MessageEvidence) : MessageEvidence :=
  { message with eligibleAsOutgoingEvidence := false, issues := message.issues ++ [conflictCode] }

def messagesOf (variants : Variants) : List MessageEvidence :=
  (JsMap.values variants).map fun message => if 1 < variants.length then message.conflicting else message

/-- One round of the loop over the rows; none when the reading of the row throws. -/
def readRow (rt : Runtime) (groups : List (MessageKey × Variants)) (row : WebhookRow) :
    Option (List (MessageKey × Variants)) := do
  match ← normalizeCrmControlWebhook rt row with
  | none => some groups
  | some message => some (addRow groups row message)

def normalizeCrmControlWebhookRows (rt : Runtime) (rows : List WebhookRow) : Option (List MessageEvidence) := do
  let groups ← rows.foldlM (readRow rt) []
  some ((JsMap.values groups).flatMap messagesOf)

/-! ## The index -/

/-- `CrmControlTalkBindingProof`; an invalid date is none. -/
structure TalkBindingProof where
  connectionId : JsString
  talkId : JsString
  leadExternalId : JsString
  validFrom : Option ℤ
  validTo : Option ℤ
  sourceReference : JsString

structure IndexOptions where
  connectionId : JsString
  dealExternalIds : List JsString
  observedAt : Option ℤ
  talkBindings : List TalkBindingProof

/-- A proof of this connection with a reference and an interval. -/
def TalkBindingProof.isUsable (proof : TalkBindingProof) (connectionId : JsString) : Bool :=
  proof.connectionId = connectionId && !blank proof.sourceReference &&
    proof.validFrom.any fun validFrom => proof.validTo.any (validFrom < ·)

/-- `occurredAt >= proof.validFrom && occurredAt < proof.validTo`. -/
def TalkBindingProof.holdsAt (proof : TalkBindingProof) (occurredAt : ℤ) : Bool :=
  proof.validFrom.any (· ≤ occurredAt) && proof.validTo.any (occurredAt < ·)

def talksOf (options : IndexOptions) : List (JsString × List TalkBindingProof) :=
  (options.talkBindings.filter fun proof => proof.isUsable options.connectionId).foldl (fun talks proof =>
    JsMap.set proof.talkId ((JsMap.get? proof.talkId talks).getD [] ++ [proof]) talks) []

inductive BindingProof
  | webhookEntity (sourceReference : JsString)
  | talk (sourceReference : JsString)
  deriving DecidableEq

/-- `CrmControlDealMessageEvidence`. -/
structure DealMessage where
  message : MessageEvidence
  occurredAt : ℤ
  dated : message.occurredAt = some occurredAt
  bindingProof : BindingProof

structure SourceDealIndex where
  byDeal : List (JsString × List DealMessage)
  unresolved : List MessageEvidence
  outOfScopeCount : ℕ
  excludedAfterObservationCount : ℕ

/-- The proofs of the message's talk at its time. -/
def matchesAt (options : IndexOptions) (message : MessageEvidence) (occurredAt : ℤ) : List TalkBindingProof :=
  ((JsMap.get? (message.talkId.getD []) (talksOf options)).getD []).filter (·.holdsAt occurredAt)

/-- A lead that the message itself names, when the text is not empty. -/
def MessageEvidence.ownLead (message : MessageEvidence) : Option JsString :=
  message.binding.leadExternalId.filter (· ≠ [])

def leadIdsAt (options : IndexOptions) (message : MessageEvidence) (occurredAt : ℤ) : List JsString :=
  JsMap.distinct ((matchesAt options message occurredAt).map (·.leadExternalId) ++ message.ownLead.toList)

def bindingProofOf (message : MessageEvidence) (talks : List TalkBindingProof) : BindingProof :=
  match message.ownLead with
  | some _ => .webhookEntity message.sourceRefs.first.inboxId
  | none => .talk ((talks.head?.map (·.sourceReference)).getD [])

/-- A message that no deal can be told for. -/
def MessageEvidence.isUnclear (message : MessageEvidence) : Bool :=
  [BindingKind.conflict, .otherEntity].contains message.binding.kind || message.issues.contains conflictCode

/-- One round of the loop over the messages. -/
def indexMessage (options : IndexOptions) (observedAt : ℤ) (index : SourceDealIndex) (message : MessageEvidence) :
    SourceDealIndex :=
  if message.connectionId ≠ options.connectionId then index
  else match hdated : message.occurredAt with
    | none => { index with unresolved := index.unresolved ++ [message] }
    | some occurredAt =>
      if observedAt < occurredAt then
        { index with excludedAfterObservationCount := index.excludedAfterObservationCount + 1 }
      else if message.isUnclear then { index with unresolved := index.unresolved ++ [message] }
      else match leadIdsAt options message occurredAt with
        | [leadId] => match JsMap.get? leadId index.byDeal with
          | none => { index with outOfScopeCount := index.outOfScopeCount + 1 }
          | some target =>
            let proof := bindingProofOf message (matchesAt options message occurredAt)
            { index with byDeal := JsMap.set leadId (target ++ [⟨message, occurredAt, hdated, proof⟩]) index.byDeal }
        | _ => { index with unresolved := index.unresolved ++ [message] }

def emptyIndex (options : IndexOptions) : SourceDealIndex where
  byDeal := JsMap.ofEntries (options.dealExternalIds.map fun id => (id, []))
  unresolved := []
  outOfScopeCount := 0
  excludedAfterObservationCount := 0

/-- `String(message.messageId)`. -/
def idText (message : MessageEvidence) : JsString := message.messageId.getD (js "null")

/-- The order of a deal's messages: by time, then by id. -/
def notAfter (localeCompare : Collation) (left right : DealMessage) : Bool :=
  left.occurredAt < right.occurredAt ||
    left.occurredAt = right.occurredAt && localeCompare.le (idText left.message) (idText right.message)

/-- `indexCrmControlSourcesForDeals`; none when it throws. -/
def indexCrmControlSourcesForDeals (localeCompare : Collation) (messages : List MessageEvidence)
    (options : IndexOptions) : Option SourceDealIndex :=
  options.observedAt.map fun observedAt =>
    let index := messages.foldl (indexMessage options observedAt) (emptyIndex options)
    { index with byDeal := index.byDeal.map fun entry => (entry.1, entry.2.mergeSort (notAfter localeCompare)) }

end AmoAnalytics.CrmControl.Source
