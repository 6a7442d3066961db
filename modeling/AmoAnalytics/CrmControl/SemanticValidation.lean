import AmoAnalytics.CrmControl.SemanticText

/-!
# Validation of an analyzer response

`validateCrmControlSemanticResponse` of `crm-control-semantic.validation.ts`: the request is the typed
one of the server, the response an arbitrary value. A check that returns `invalid` ends the validation;
one that reports `unknown` adds an issue and goes on.
-/

namespace AmoAnalytics.CrmControl.Semantic

open JsText

/-! ## The request -/

inductive Check
  | taskAction
  | proposalNote
  | deadlineAgreement
  | priceDelay
  deriving DecidableEq

def Check.code : Check → String
  | .taskAction => "task_action"
  | .proposalNote => "proposal_note"
  | .deadlineAgreement => "deadline_agreement"
  | .priceDelay => "price_delay"

inductive Fact
  | action
  | stageRelevance
  | transferReason
  | presentationDate
  | managerNote
  | customerAgreement
  | agreedDeadline
  | priceDelayReason
  deriving DecidableEq

def Fact.code : Fact → String
  | .action => "action"
  | .stageRelevance => "stage_relevance"
  | .transferReason => "transfer_reason"
  | .presentationDate => "presentation_date"
  | .managerNote => "manager_note"
  | .customerAgreement => "customer_agreement"
  | .agreedDeadline => "agreed_deadline"
  | .priceDelayReason => "price_delay_reason"

/-- `CRM_CONTROL_SEMANTIC_FACTS`. -/
def requiredFacts : Check → List Fact
  | .taskAction => [.action, .stageRelevance]
  | .proposalNote => [.transferReason, .presentationDate]
  | .deadlineAgreement => [.managerNote, .customerAgreement, .agreedDeadline]
  | .priceDelay => [.priceDelayReason]

inductive SourceKind
  | task
  | managerNote
  | customerMessage
  | supplierMessage
  | message
  | callTranscript
  deriving DecidableEq

inductive Actor
  | manager
  | customer
  | supplier
  | bot
  | unknown
  deriving DecidableEq

inductive SourceDirection
  | incoming
  | outgoing
  | internal
  | unknown
  deriving DecidableEq

structure Source where
  id : JsString
  sourceHash : JsString
  dealId : JsString
  ownerId : JsString
  subjectId : Option JsString
  assignedManagerId : Option JsString := none
  kind : SourceKind
  actor : Actor
  actorId : Option JsString
  direction : SourceDirection
  text : JsString
  createdAt : Option JsString
  deriving DecidableEq

structure Coverage where
  tasks : Bool
  notes : Bool
  communications : Bool
  deriving DecidableEq

structure Request where
  schemaVersion : ℤ
  requestId : JsString
  check : Check
  dealId : JsString
  ownerId : JsString
  subjectId : Option JsString
  observedAt : JsString
  stageEnteredAt : Option JsString
  timeZone : JsString
  stageName : JsString
  taskDueAt : Option JsString := none
  maxDueAt : Option JsString := none
  coverage : Coverage
  sources : List Source
  deriving DecidableEq

/-! ## The result -/

inductive ValidationStatus
  | validated
  | unknown
  | invalid
  deriving DecidableEq

structure Issue where
  code : String
  fact : Option Fact := none
  sourceId : Option JsString := none
  deriving DecidableEq

structure Citation where
  sourceId : JsString
  sourceHash : JsString
  quote : JsString
  deriving DecidableEq

structure Finding where
  fact : Fact
  state : JsValue
  evidence : List Citation
  date : Option SemanticDate := none

structure Validation where
  status : ValidationStatus
  requestId : JsString
  check : Check
  subjectId : Option JsString
  findings : List Finding
  issues : List Issue

/-- The ways a check ends the validation: an invalid request or response, or an exception. -/
inductive Stop
  | invalid (issues : List Issue)
  | thrown

/-- `invalid(code, fact, sourceId)` after the issues so far. -/
def invalid {α : Type} (issues : List Issue) (code : String) (fact : Option Fact := none)
    (sourceId : Option JsString := none) : Except Stop α :=
  .error (.invalid (issues ++ [⟨code, fact, sourceId⟩]))

/-- `unknown(code, …)` under a condition. -/
def unknownIf (condition : Bool) (code : String) (fact : Option Fact := none)
    (sourceId : Option JsString := none) : List Issue :=
  if condition then [⟨code, fact, sourceId⟩] else []

/-! ## Sources and facts -/

def id (s : JsString) : Bool := !blank s && s.length ≤ 256

/-- A text that is null or empty. -/
def missing (s : Option JsString) : Bool := s.getD [] = []

/-- The fact is about the task itself. -/
def Fact.ofTask (fact : Fact) : Bool := fact = .action || fact = .stageRelevance

/-- The fact is read from a note of the manager. -/
def Fact.ofNote (fact : Fact) : Bool :=
  fact = .managerNote || fact = .transferReason || fact = .presentationDate

def dateFact (fact : Fact) : Bool := fact = .presentationDate || fact = .agreedDeadline

def agreementFact (fact : Fact) : Bool := fact = .customerAgreement || fact = .agreedDeadline

/-- An incoming message of the customer. -/
def fromCustomer (source : Source) : Bool :=
  source.actor = .customer && (source.kind = .message || source.kind = .customerMessage) &&
    source.direction = .incoming

/-- An incoming message of the supplier. -/
def fromSupplier (source : Source) : Bool :=
  source.actor = .supplier && (source.kind = .message || source.kind = .supplierMessage) &&
    source.direction = .incoming

def supportsFact (source : Source) (fact : Fact) (request : Request) : Bool :=
  if source.kind = .callTranscript then false
  else if fact.ofTask then
    source.kind = .task && source.subjectId = request.subjectId &&
      source.assignedManagerId = some request.ownerId
  else if missing source.actorId || source.actor = .unknown || source.actor = .bot then false
  else if fact.ofNote then source.kind = .managerNote && source.actor = .manager
  else if agreementFact fact then fromCustomer source
  else fromCustomer source || fromSupplier source

def hasUncertainAttribution (source : Source) (fact : Fact) : Bool :=
  if fact.ofTask || source.actor = .bot then false
  else
    let couldContain := if fact.ofNote then source.kind = .managerNote
      else source.kind = .customerMessage || source.kind = .supplierMessage || source.kind = .message ||
        source.kind = .callTranscript
    couldContain && (source.actor = .unknown || missing source.actorId ||
      (!fact.ofNote && source.direction = .unknown))

/-! ## The checks of the request -/

/-- What makes a source invalid, after the sources with the ids `seen`. -/
def sourceProblem (rt : Runtime) (request : Request) (seen : List JsString) (source : Source) :
    Option Issue :=
  if !id source.id || seen.contains source.id || 16_000 < source.text.length ||
      source.actorId.any (!id ·) || source.subjectId.any (!id ·) then some ⟨"INVALID_SOURCE", none, none⟩
  else if source.dealId ≠ request.dealId || source.ownerId ≠ request.ownerId then
    some ⟨"SOURCE_SCOPE_MISMATCH", none, some source.id⟩
  else if (source.subjectId.isSome && source.subjectId ≠ request.subjectId) ||
      (source.kind = .task && missing source.subjectId) then
    some ⟨"SOURCE_SUBJECT_MISMATCH", none, some source.id⟩
  else if source.kind = .task && source.assignedManagerId ≠ some request.ownerId then
    some ⟨"TASK_ASSIGNEE_MISMATCH", none, some source.id⟩
  else if source.sourceHash ≠ rt.textHash source.text then
    some ⟨"SOURCE_HASH_MISMATCH", none, some source.id⟩
  else none

def sourceDoubts (rt : Runtime) (source : Source) : List Issue :=
  unknownIf (source.kind = .callTranscript) "CALL_TRANSCRIPT_UNVERIFIED" none (some source.id) ++
    unknownIf (instructionRisk rt source.text) "SOURCE_INSTRUCTION_TO_ANALYZER" none (some source.id)

/-- The loop over the sources. -/
def readSources (rt : Runtime) (request : Request) :
    List Issue → List JsString → ℕ → List Source → Except Stop (List Issue)
  | issues, _, _, [] => .ok issues
  | issues, seen, characters, source :: sources =>
    match sourceProblem rt request seen source with
    | some issue => .error (.invalid (issues ++ [issue]))
    | none =>
      let issues := issues ++ sourceDoubts rt source
      let characters := characters + source.text.length
      if 128_000 < characters then invalid issues "SOURCE_LIMIT_EXCEEDED"
      else readSources rt request issues (source.id :: seen) characters sources

/-- What is known of the request when the response is read. -/
structure Preflight where
  observedAt : ℤ
  stageEnteredAt : Option ℤ
  formatter : Formatter
  issues : List Issue

def preflight (rt : Runtime) (request : Request) : Except Stop Preflight :=
  match instant request.observedAt with
  | none => invalid [] "INVALID_REQUEST"
  | some observedAt =>
    if request.schemaVersion ≠ 1 ∨ !id request.requestId ∨ !id request.dealId ∨ !id request.ownerId ∨
        request.subjectId.any (!id ·) ∨ 128 < request.sources.length then invalid [] "INVALID_REQUEST"
    else if request.taskDueAt.any (fun s => (instant s).isNone) ∨
        request.maxDueAt.any (fun s => (instant s).isNone) then invalid [] "INVALID_REQUEST_DATE"
    else if request.check = .taskAction ∧ missing request.subjectId then invalid [] "MISSING_TASK_SUBJECT"
    else
      match rt.dateTimeFormat request.timeZone with
      | none => invalid [] "INVALID_TIME_ZONE"
      | some formatter => do
        let stageEnteredAt := request.stageEnteredAt.bind instant
        let issues ← readSources rt request
          (unknownIf (request.check ≠ .taskAction && !stageEnteredAt.any (· ≤ observedAt))
              "UNKNOWN_STAGE_ENTRY" ++
            unknownIf (blank request.stageName) "MISSING_STAGE_CONTEXT" ++
            unknownIf (instructionRisk rt request.stageName) "STAGE_INSTRUCTION_TO_ANALYZER")
          [] 0 request.sources
        .ok ⟨observedAt, stageEnteredAt, formatter, issues⟩

/-! ## The frame of the response -/

/-- The response as a value: a text is parsed. -/
def parseResponse (rt : Runtime) (issues : List Issue) : JsValue → Except Stop JsValue
  | .str s =>
    if 64_000 < s.length then invalid issues "RESPONSE_LIMIT_EXCEEDED"
    else
      match rt.parseJson s with
      | some value => .ok value
      | none => invalid issues "INVALID_JSON"
  | value => .ok value

/-- `value === text ?? null`. -/
def sameText (value : JsValue) : Option JsString → Bool
  | some s => value.isText s
  | none =>
    match value with
    | .null => true
    | _ => false

/-- The identifiers in an array of texts. -/
def idTexts (value : JsValue) : Option (List JsString) :=
  value.arr?.bind fun items => items.mapM fun item => item.str?.filter id

/-- The findings and the inspected sources of a response that answers the request. -/
def readFrame (request : Request) (issues : List Issue) (value : JsValue) :
    Except Stop (List JsValue × List JsString) :=
  match (value.get "findings").arr?, idTexts (value.get "inspectedSourceIds") with
  | some findings, some inspected =>
    if !value.isObject ||
        !value.onlyKeys ["schemaVersion", "requestId", "check", "subjectId", "inspectedSourceIds", "findings"] ||
        !(value.get "schemaVersion").isNum 1 || !(value.get "requestId").isText request.requestId ||
        !(value.get "check").isText (js request.check.code) ||
        !sameText (value.get "subjectId") request.subjectId ||
        findings.length ≠ (requiredFacts request.check).length || !decide inspected.Nodup then
      invalid issues "INVALID_RESPONSE"
    else if inspected.length ≠ request.sources.length ||
        request.sources.any fun source => !inspected.contains source.id then
      invalid issues "INCOMPLETE_INSPECTED_SOURCES"
    else .ok (findings, inspected)
  | _, _ => invalid issues "INVALID_RESPONSE"

/-! ## Findings -/

/-- A source that supports the fact, with its quotation. -/
structure Witness where
  source : Source
  quote : JsString

def trimmed (s : JsString) : JsString := (s.dropWhile isSpace).rdropWhile isSpace

def readCitation (reference : JsValue) : Option Citation :=
  if !reference.isObject || !reference.onlyKeys ["sourceId", "sourceHash", "quote"] then none
  else do
    let sourceId ← (reference.get "sourceId").str?.filter id
    let sourceHash ← (reference.get "sourceHash").str?
    let quote ← (reference.get "quote").str?.filter fun s => 2 ≤ (trimmed s).length && s.length ≤ 2000
    some ⟨sourceId, sourceHash, quote⟩

/-- The time of the source lies between the stage entry and the observation; a task may be older. -/
def inWindow (pre : Preflight) (fact : Fact) (source : Source) : Bool :=
  (source.createdAt.bind instant).any fun createdAt => createdAt ≤ pre.observedAt &&
    (fact.ofTask || pre.stageEnteredAt.any (· ≤ createdAt))

/-- The loop over the evidence of a finding. -/
def readEvidence (request : Request) (pre : Preflight) (fact : Fact) :
    List Issue → List Witness → List Citation → List JsValue →
      Except Stop (List Issue × List Witness × List Citation)
  | issues, witnesses, evidence, [] => .ok (issues, witnesses, evidence)
  | issues, witnesses, evidence, reference :: references =>
    match readCitation reference with
    | none => invalid issues "INVALID_CITATION" (some fact)
    | some citation =>
      match (request.sources.find? fun source => source.id = citation.sourceId).filter fun source =>
          source.sourceHash = citation.sourceHash && includes source.text citation.quote with
      | none => invalid issues "UNGROUNDED_CITATION" (some fact) (some citation.sourceId)
      | some source =>
        readEvidence request pre fact
          (issues ++ unknownIf (!inWindow pre fact source) "SOURCE_OUTSIDE_OBSERVATION_WINDOW" (some fact)
            (some source.id))
          (if inWindow pre fact source && supportsFact source fact request then
            witnesses ++ [⟨source, citation.quote⟩] else witnesses)
          (evidence ++ [citation]) references

/-- The customer took back the agreement after it was witnessed. -/
def conflicts (request : Request) (pre : Preflight) (fact : Fact) (witnesses : List Witness) :
    List Issue :=
  match (witnesses.filterMap fun witness => witness.source.createdAt.bind instant).min? with
  | none => []
  | some witnessedAt =>
    request.sources.flatMap fun source =>
      unknownIf (supportsFact source fact request &&
        ((source.createdAt.bind instant).any fun at' => witnessedAt ≤ at' && at' ≤ pre.observedAt) &&
          withdrawsAgreement source.text) "CONFLICTING_CUSTOMER_AGREEMENT" (some fact) (some source.id)

/-- What stands against the state of a finding. -/
def stateDoubts (request : Request) (pre : Preflight) (fact : Fact) (state : JsValue)
    (witnesses : List Witness) : List Issue :=
  let present := state.isText (js "present")
  let absent := state.isText (js "absent")
  unknownIf (state.isText (js "uncertain")) "ANALYZER_UNCERTAIN" (some fact) ++
    unknownIf (present && witnesses.isEmpty) "MISSING_TRUSTED_WITNESS" (some fact) ++
    (if present && agreementFact fact then conflicts request pre fact witnesses else []) ++
    unknownIf (absent && (request.sources.filter (supportsFact · fact request)).any fun source =>
      !(source.createdAt.bind instant).any (· ≤ pre.observedAt)) "UNDATED_OR_FUTURE_SOURCE" (some fact) ++
    unknownIf (absent && request.sources.any (hasUncertainAttribution · fact)) "UNATTRIBUTED_SOURCE"
      (some fact)

def Precision.code : Precision → String
  | .day => "day"
  | .minute => "minute"

/-- The date that all witnesses give. -/
def witnessedDate (rt : Runtime) (pre : Preflight) (witnesses : List Witness) : Option SemanticDate :=
  let dates := witnesses.map fun witness =>
    citedDate rt witness.quote witness.source.createdAt pre.formatter
  if dates.contains none then none
  else
    match (dates.filterMap fun date => date).dedup with
    | [date] => some date
    | _ => none

/-- The date of the response says the same. -/
def dateAgrees (date : SemanticDate) (supplied : JsValue) : Bool :=
  let value := (supplied.get "value").str?
  (supplied.get "precision").isText (js date.precision.code) &&
    (if date.precision = .minute then (value.bind instant).map isoString else value) = some date.value

/-- The date of a finding that is present. -/
def readDate (rt : Runtime) (pre : Preflight) (fact : Fact) (item : JsValue) (witnesses : List Witness)
    (issues : List Issue) : Except Stop (List Issue × Option SemanticDate) :=
  if !((item.get "state").isText (js "present") && dateFact fact) then .ok (issues, none)
  else
    match witnessedDate rt pre witnesses with
    | none => .ok (issues ++ [⟨"UNRESOLVED_DATE", some fact, none⟩], none)
    | some date =>
      if (item.get "date").isObject && !dateAgrees date (item.get "date") then
        invalid issues "DATE_NOT_GROUNDED" (some fact)
      else .ok (issues, some date)

/-- The form of a date in the response; `none` when its text throws. -/
def dateForm (fact : Fact) (item : JsValue) : Option Bool :=
  let date := item.get "date"
  if date.isUndefined then some true
  else if !dateFact fact || !(item.get "state").isText (js "present") || !date.isObject ||
      !date.onlyKeys ["value", "precision"] || (date.get "value").str?.isNone then some false
  else (date.get "precision").text.map fun s => s = js "day" || s = js "minute"

/-- The fact of a finding that is required and was not seen. -/
def readFact (request : Request) (seen : List Fact) (item : JsValue) : Option Fact :=
  if !item.isObject || !item.onlyKeys ["fact", "state", "evidence", "date"] then none
  else (item.get "fact").str?.bind fun s =>
    ((requiredFacts request.check).find? fun fact => js fact.code = s).filter fun fact =>
      !seen.contains fact

/-- The evidence of a finding whose state is one of the three; `none` when its text throws. -/
def readState (item : JsValue) : Option (Option (List JsValue)) :=
  (item.get "state").text.map fun s =>
    if s = js "present" || s = js "absent" || s = js "uncertain" then
      (item.get "evidence").arr?.filter fun evidence => evidence.length ≤ 12
    else none

def readFinding (rt : Runtime) (request : Request) (pre : Preflight) (seen : List Fact)
    (issues : List Issue) (item : JsValue) : Except Stop (List Issue × Finding) :=
  match readFact request seen item with
  | none => invalid issues "INVALID_FINDING"
  | some fact =>
    match readState item with
    | none => .error .thrown
    | some none => invalid issues "INVALID_FINDING"
    | some (some references) =>
      match dateForm fact item with
      | none => .error .thrown
      | some false => invalid issues "INVALID_DATE" (some fact)
      | some true => do
        let (issues, witnesses, evidence) ← readEvidence request pre fact issues [] [] references
        let (issues, date) ← readDate rt pre fact item witnesses
          (issues ++ stateDoubts request pre fact (item.get "state") witnesses)
        .ok (issues, ⟨fact, item.get "state", evidence, date⟩)

/-- The loop over the findings. -/
def readFindings (rt : Runtime) (request : Request) (pre : Preflight) :
    List Issue → List Finding → List JsValue → Except Stop (List Issue × List Finding)
  | issues, findings, [] => .ok (issues, findings)
  | issues, findings, item :: items => do
    let (issues, finding) ← readFinding rt request pre (findings.map (·.fact)) issues item
    readFindings rt request pre issues (findings ++ [finding]) items

/-! ## The validation -/

/-- The kinds of source that the check needs and the request does not cover. A grounded incoming
quotation proves presence without the other messages. -/
def coverageDoubts (request : Request) (findings : List Finding) : List Issue :=
  let facts := if request.check = .deadlineAgreement then [Fact.customerAgreement, .agreedDeadline]
    else [.priceDelayReason]
  let positive := facts.all fun fact => findings.any fun finding =>
    finding.fact = fact && finding.state.isText (js "present")
  let notes := unknownIf (!request.coverage.notes) "INCOMPLETE_NOTES"
  match request.check with
  | .taskAction => unknownIf (!request.coverage.tasks) "INCOMPLETE_TASKS"
  | .proposalNote => notes
  | _ => notes ++ unknownIf (!request.coverage.communications && !positive) "INCOMPLETE_COMMUNICATIONS"

def readResponse (rt : Runtime) (request : Request) (response : JsValue) :
    Except Stop (List Issue × List Finding) := do
  let pre ← preflight rt request
  let value ← parseResponse rt pre.issues response
  let (items, _) ← readFrame request pre.issues value
  let (issues, findings) ← readFindings rt request pre pre.issues [] items
  .ok (issues ++ coverageDoubts request findings, findings)

/-- `none` when an exception is thrown. -/
def validateCrmControlSemanticResponse (rt : Runtime) (request : Request) (response : JsValue) :
    Option Validation :=
  let result := fun status => Validation.mk status request.requestId request.check request.subjectId
  match readResponse rt request response with
  | .ok (issues, findings) => some (result (if issues = [] then .validated else .unknown) findings issues)
  | .error (.invalid issues) => some (result .invalid [] issues)
  | .error .thrown => none

end AmoAnalytics.CrmControl.Semantic
