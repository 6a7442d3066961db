import AmoAnalytics.CrmControl.ChatBinding
import AmoAnalytics.CrmControl.SemanticText
import AmoAnalytics.CrmControl.SourceMessage

/-!
# The calls of an observation

`normalizeCrmControlCallSources` of `crm-control-call-source.ts`: every call note of a verified snapshot becomes a
source, and the copies of one note are merged into the first of them. The copies are told apart by the digest of
their raw content alone; what a copy adds around its raw content counts only when it is the first.
-/

namespace AmoAnalytics.CrmControl.Call

open JsText AmoAnalytics.Json

structure Url where
  protocol : JsString
  username : JsString
  password : JsString
  port : JsString
  hash : JsString

/-- The digest of a text, `Date.parse` and `new URL`. -/
structure Runtime where
  sha256 : JsString → JsString
  dateParse : JsString → Option ℤ
  parseUrl : JsString → Option Url

/-- `CrmControlCallObservation`; an invalid date is none. -/
structure CallObservation where
  id : JsString
  dealId : JsString
  dealExternalId : JsString
  managerId : Option JsString
  observedAt : Option ℤ
  snapshotHash : JsString
  snapshot : AmoAnalytics.Json

inductive Status
  | bound
  | unbound
  | invalid
  deriving DecidableEq

inductive Direction
  | incoming
  | outgoing
  deriving DecidableEq

inductive Binding
  | directLeadNote
  | unverified
  deriving DecidableEq

/-- `CrmControlCallSource` without its constants. -/
structure CallSource where
  status : Status
  issues : List String
  observationId : JsString
  dealId : JsString
  ownerId : Option JsString
  snapshotHash : JsString
  noteId : Option JsString
  providerCallId : Option JsString
  sourceHash : JsString
  sourceIdentityHash : JsString
  direction : Direction
  recordedAt : Option JsString
  durationSeconds : Option ℤ
  recordingUrl : Option JsString
  recordingUrlHash : Option JsString
  binding : Binding

structure CallSources where
  sources : List CallSource
  issues : List String

/-! ## Values of a note -/

/-- `/^[a-f0-9]{64}$/`. -/
def isHash (s : JsString) : Bool := s.length = 64 && s.all fun c => between 'a' 'f' c || isDigit c

def numericId : Option AmoAnalytics.Json → Option JsString
  | some (.str s) => if Chat.isNumericId s then some s else none
  | some (.num n) => (Source.positiveInteger n).map fun _ => n.text
  | _ => none

/-- `[A-Za-z0-9:_-]`. -/
def isCallIdUnit (c : UInt16) : Bool := between 'A' 'Z' c || between 'a' 'z' c || isDigit c || oneOf ":_-" c

def callId (value : Option AmoAnalytics.Json) : Option JsString :=
  ((Source.textOf value).filter fun s => 1 ≤ s.length && s.length ≤ 256 && s.all isCallIdUnit).or (numericId value)

/-- A number, or a text of at most so many digits. -/
def wholeNumber (digits : ℕ) : Option AmoAnalytics.Json → Option ℤ
  | some (.num n) => Source.integer n
  | some (.str s) => if 1 ≤ s.length && s.length ≤ digits && s.all isDigit then some (number s) else none
  | _ => none

/-- `timestamp`, in milliseconds. -/
def timestamp (value : Option AmoAnalytics.Json) : Option ℤ :=
  ((safeInteger (wholeNumber 12 value)).filter fun seconds => 0 < seconds && seconds ≤ 253402300799).map (· * 1000)

def canonical (value : AmoAnalytics.Json) : JsString := sortedText codeUnits value

def nullable : Option JsString → AmoAnalytics.Json
  | none => .null
  | some s => .str s

def crmControlCallSourceIdentity (rt : Runtime) (source : CallSource) : JsString :=
  rt.sha256 (canonical (.obj [
    (js "version", .str (js "call-source-v1")),
    (js "observationId", .str source.observationId),
    (js "dealId", .str source.dealId),
    (js "ownerId", nullable source.ownerId),
    (js "snapshotHash", .str source.snapshotHash),
    (js "noteId", nullable source.noteId),
    (js "sourceHash", .str source.sourceHash),
    (js "recordingUrlHash", nullable source.recordingUrlHash)]))

/-- `[\u0000-\u0020\u007f\\]`. -/
def isForbidden (c : UInt16) : Bool := c.toNat ≤ 0x20 || c = 0x7f || c = 0x5c

def candidateUrl (rt : Runtime) (value : Option AmoAnalytics.Json) : Option JsString :=
  (Source.textOf value).filter fun s =>
    s.length ≤ 8192 && !s.any isForbidden && (rt.parseUrl s).any fun url =>
      url.protocol = js "https:" && url.username = [] && url.password = [] && url.port = [] && url.hash = []

/-! ## The snapshot -/

/-- `Date.parse(value)`; none outside when the value has no text. -/
def parseDate (rt : Runtime) (value : Option AmoAnalytics.Json) : Option (Option ℤ) :=
  (match value with
    | none => some (js "undefined")
    | some value => value.asText).map rt.dateParse

/-- When the deal was created and observed, in milliseconds. -/
structure Window where
  created : ℤ
  observed : ℤ
  deriving DecidableEq

namespace CallObservation

variable (observation : CallObservation)

def deal : Option AmoAnalytics.Json := (observation.snapshot.get "deal").filter (·.isObject)

/-- `snapshot.notes`, if it is an array. -/
def notes? : Option (List AmoAnalytics.Json) :=
  match observation.snapshot.get "notes" with
  | some (.arr items) => some items
  | _ => none

def notes : List AmoAnalytics.Json := observation.notes?.getD []

/-- The snapshot is of this observation, of its deal and of its manager. -/
def isOwn : Bool :=
  observation.deal.any fun deal =>
    isHash observation.snapshotHash && observation.id ≠ [] && observation.managerId.any (· ≠ []) &&
    Source.textOf (deal.get "id") = some observation.dealId &&
    Source.textOf (deal.get "externalId") = some observation.dealExternalId &&
    Source.textOf (deal.get "responsibleId") = observation.managerId &&
    Chat.isNumericId observation.dealExternalId && observation.observedAt.isSome

/-- `snapshot.sourceCompleteness?.deal === true`. -/
def dealComplete : Bool :=
  match (observation.snapshot.get "sourceCompleteness").bind (·.get "deal") with
  | some (.bool complete) => complete
  | _ => false

/-- The window of a verified snapshot; none outside when reading a date throws. -/
def window (rt : Runtime) : Option (Option Window) :=
  if !observation.isOwn then some none
  else do
    let observed ← parseDate rt (observation.snapshot.get "observedAt")
    if observed ≠ observation.observedAt || !observation.dealComplete || observation.notes?.isNone then some none
    else do
      let created ← parseDate rt (observation.deal.bind (·.get "createdAt"))
      match created, observation.observedAt with
      | some created, some observed => if created ≤ observed then some (some ⟨created, observed⟩) else some none
      | _, _ => some none

end CallObservation

/-! ## A note -/

/-- A call note and its raw content. -/
structure CallNote where
  note : AmoAnalytics.Json
  raw : AmoAnalytics.Json

/-- `raw.note_type` of a call. -/
def direction? (raw : AmoAnalytics.Json) : Option Direction :=
  match Source.textOf (raw.get "note_type") with
  | some type => if type = js "call_in" then some .incoming else if type = js "call_out" then some .outgoing else none
  | none => none

def callNote? (note : AmoAnalytics.Json) : Option CallNote :=
  ((note.get "raw").filter fun raw => raw.isObject && (direction? raw).isSome).map fun raw => ⟨note, raw⟩

def CallObservation.calls (observation : CallObservation) : List CallNote := observation.notes.filterMap callNote?

namespace CallNote

variable (call : CallNote)

def id : Option JsString := numericId (call.raw.get "id")

def param (key : String) : Option AmoAnalytics.Json := (call.raw.get "params").bind (·.get key)

def sourceHash (rt : Runtime) : JsString := rt.sha256 (canonical call.raw)

/-- The note around the raw content names another id or type; none when its id has no text. -/
def identityConflict : Option Bool :=
  match call.id with
  | none => some true
  | some id => do
    let differs ← match call.note.get "externalId" with
      | none | some .null => some false
      | some externalId => externalId.asText.map fun text => decide (text ≠ id)
    some (differs || !Source.isNullish (call.note.get "type") &&
      Source.textOf (call.note.get "type") ≠ Source.textOf (call.raw.get "note_type"))

def createdAt : Option ℤ := timestamp (call.raw.get "created_at")

def updatedAt : Option ℤ :=
  if Source.isNullish (call.raw.get "updated_at") then call.createdAt else timestamp (call.raw.get "updated_at")

def timely (window : Window) : Bool :=
  match call.createdAt, call.updatedAt with
  | some createdAt, some updatedAt =>
    window.created ≤ createdAt && createdAt ≤ window.observed && createdAt ≤ updatedAt && updatedAt ≤ window.observed
  | _, _ => false

/-- `['lead', 'leads', 2, '2'].includes(kind)`, or no kind. -/
def namesLead : Bool :=
  match call.raw.get "entity_type" with
  | none | some .null => true
  | some (.str kind) => [js "lead", js "leads", js "2"].contains kind
  | some (.num n) => Source.integer n = some 2
  | _ => false

def direct (observation : CallObservation) : Bool :=
  numericId (call.raw.get "entity_id") = some observation.dealExternalId && call.namesLead

def uniq : Option JsString := callId (call.param "uniq")

def providerId : Option JsString := callId (call.param "call_id")

/-- A provider id that is none, or two that differ. -/
def providerConflict : Bool :=
  !Source.isNullish (call.param "uniq") && call.uniq.isNone ||
    !Source.isNullish (call.param "call_id") && call.providerId.isNone ||
    call.uniq.isSome && call.providerId.isSome && call.uniq ≠ call.providerId

def duration : Option ℤ := (safeInteger (wholeNumber 8 (call.param "duration"))).filter (0 ≤ ·)

/-- The source of a note whose wrapper conflicts with its raw content or not. -/
def source (rt : Runtime) (observation : CallObservation) (window : Window) (conflict : Bool) : CallSource :=
  let direct := call.direct observation
  let invalid := conflict || !call.timely window || call.providerConflict
  let recordingUrl := candidateUrl rt (call.param "link")
  let source : CallSource :=
    { status := if invalid then .invalid else if direct then .bound else .unbound
      issues := Source.issueIf conflict "CALL_NOTE_IDENTITY_CONFLICT" ++
        Source.issueIf (!call.timely window) "CALL_NOTE_TIME_UNVERIFIED" ++
        Source.issueIf (!direct) "CALL_DEAL_BINDING_UNVERIFIED" ++
        Source.issueIf call.providerConflict "CALL_PROVIDER_ID_UNVERIFIED" ++
        Source.issueIf recordingUrl.isNone "CALL_RECORDING_URL_UNAVAILABLE"
      observationId := observation.id
      dealId := observation.dealId
      ownerId := observation.managerId
      snapshotHash := observation.snapshotHash
      noteId := call.id
      providerCallId := call.uniq.or call.providerId
      sourceHash := call.sourceHash rt
      sourceIdentityHash := []
      direction := (direction? call.raw).getD .outgoing
      recordedAt := call.createdAt.map Semantic.isoString
      durationSeconds := call.duration
      recordingUrl := if !invalid && direct then recordingUrl else none
      recordingUrlHash := if !invalid && direct then recordingUrl.map rt.sha256 else none
      binding := if !invalid && direct then .directLeadNote else .unverified }
  { source with sourceIdentityHash := crmControlCallSourceIdentity rt source }

/-- The source of a note; none when its id has no text. -/
def read (rt : Runtime) (observation : CallObservation) (window : Window) : Option CallSource :=
  call.identityConflict.map (call.source rt observation window)

end CallNote

/-! ## The copies of a note -/

def CallSource.key (source : CallSource) : JsString := source.noteId.getD (js "invalid:" ++ source.sourceHash)

/-- A source of which another copy has other content. -/
def CallSource.conflicted (rt : Runtime) (source : CallSource) : CallSource :=
  let source :=
    { source with status := .invalid, binding := .unverified, recordingUrl := none, recordingUrlHash := none }
  { source with
    sourceIdentityHash := crmControlCallSourceIdentity rt source
    issues := if source.issues.contains "CALL_NOTE_IDENTITY_CONFLICT" then source.issues
      else source.issues ++ ["CALL_NOTE_IDENTITY_CONFLICT"] }

/-- The source of a key after another copy. -/
def mergeCopy (rt : Runtime) (previous : Option CallSource) (source : CallSource) : CallSource :=
  match previous with
  | none => source
  | some previous => if previous.sourceHash ≠ source.sourceHash then previous.conflicted rt else previous

def addNote (rt : Runtime) (observation : CallObservation) (window : Window) (byId : List (JsString × CallSource))
    (note : AmoAnalytics.Json) : Option (List (JsString × CallSource)) :=
  match callNote? note with
  | none => some byId
  | some call => do
    let source ← call.read rt observation window
    some (JsMap.set source.key (mergeCopy rt (JsMap.get? source.key byId) source) byId)

/-- `normalizeCrmControlCallSources`; none when reading a value throws. -/
def normalizeCrmControlCallSources (rt : Runtime) (observation : CallObservation) : Option CallSources := do
  match ← observation.window rt with
  | none => some ⟨[], ["CALL_SNAPSHOT_UNVERIFIED"]⟩
  | some window =>
    let byId ← observation.notes.foldlM (addNote rt observation window) []
    some ⟨JsMap.values byId, []⟩

/-! ## What one copy says -/

namespace CallNote

/-- A valid copy that is directly bound to the deal. -/
structure Bound (call : CallNote) (observation : CallObservation) (window : Window) : Prop where
  wrapper : call.identityConflict = some false
  time : call.timely window = true
  provider : call.providerConflict = false
  direct : call.direct observation = true

variable {rt : Runtime} {observation : CallObservation} {window : Window} {call : CallNote}

/-- The source of a note that is read. -/
def sourceOf (call : CallNote) (rt : Runtime) (observation : CallObservation) (window : Window) : CallSource :=
  call.source rt observation window (call.identityConflict.getD true)

theorem read_of_readable (h : call.identityConflict ≠ none) :
    call.read rt observation window = some (call.sourceOf rt observation window) := by
  obtain ⟨conflict, hconflict⟩ := Option.ne_none_iff_exists'.1 h
  rw [read, sourceOf, hconflict]
  rfl

theorem sourceOf_status : (call.sourceOf rt observation window).status = .bound ↔ call.Bound observation window := by
  have hwrapper : call.identityConflict.getD true = false ↔ call.identityConflict = some false := by
    cases call.identityConflict <;> simp
  change (if (call.identityConflict.getD true || !call.timely window || call.providerConflict) = true then
      Status.invalid
    else if call.direct observation = true then .bound else .unbound) = .bound ↔ _
  constructor
  · intro h
    split_ifs at h with hinvalid hdirect
    simp only [Bool.or_eq_true, not_or, Bool.not_eq_true, Bool.not_eq_false'] at hinvalid
    exact ⟨hwrapper.1 hinvalid.1.1, hinvalid.1.2, hinvalid.2, hdirect⟩
  · intro h
    rw [hwrapper.2 h.wrapper, h.time, h.provider, h.direct]
    rfl

theorem sourceOf_identity :
    (call.sourceOf rt observation window).sourceIdentityHash =
      crmControlCallSourceIdentity rt (call.sourceOf rt observation window) := rfl

theorem Bound.id_isSome (h : call.Bound observation window) : ∃ id, call.id = some id := by
  have hwrapper := h.wrapper
  unfold identityConflict at hwrapper
  cases hid : call.id with
  | none =>
    rw [hid] at hwrapper
    exact absurd (Option.some.inj hwrapper) Bool.noConfusion
  | some id => exact ⟨id, rfl⟩

end CallNote

/-- An id is no key of a note without one. -/
theorem numericId_head {value : Option AmoAnalytics.Json} {id : JsString} (h : numericId value = some id)
    (rest : JsString) : id ≠ js "invalid:" ++ rest := by
  rintro rfl
  unfold numericId at h
  split at h
  · split_ifs at h with hid
    obtain rfl := Option.some.inj h
    exact absurd hid (by simp [Chat.isNumericId, js, encode, between])
  · rename_i n
    obtain ⟨_, -, htext⟩ := Option.map_eq_some_iff.1 h
    obtain ⟨c, cs, hhead, hdigit⟩ := n.head_text
    rw [htext] at hhead
    obtain rfl : c = 105 := (List.cons.inj hhead).1.symm
    exact absurd hdigit (by decide)
  · cases h

theorem CallNote.key_iff {rt : Runtime} {observation : CallObservation} {window : Window} {call : CallNote}
    {value : Option AmoAnalytics.Json} {id : JsString} (h : numericId value = some id) :
    (call.sourceOf rt observation window).key = id ↔ call.id = some id := by
  change call.id.getD (js "invalid:" ++ call.sourceHash rt) = id ↔ _
  cases call.id with
  | none => exact ⟨fun hkey => absurd hkey.symm (numericId_head h _), nofun⟩
  | some other => exact ⟨congrArg some, Option.some.inj⟩

/-! ## What the copies make of a source -/

section Merge

variable {rt : Runtime}

theorem CallSource.conflicted_identity (source : CallSource) :
    (source.conflicted rt).sourceIdentityHash = crmControlCallSourceIdentity rt (source.conflicted rt) := rfl

/-- What is left of the first source of a key after other copies. -/
structure Merged (rt : Runtime) (first : CallSource) (rest : List CallSource) (source : CallSource) : Prop where
  noteId : source.noteId = first.noteId
  sourceHash : source.sourceHash = first.sourceHash
  status : source.status = .bound ↔ first.status = .bound ∧ ∀ copy ∈ rest, copy.sourceHash = first.sourceHash
  identity : first.sourceIdentityHash = crmControlCallSourceIdentity rt first →
    source.sourceIdentityHash = crmControlCallSourceIdentity rt source

theorem Merged.refl (first : CallSource) : Merged rt first [] first where
  noteId := rfl
  sourceHash := rfl
  status := ⟨fun h => ⟨h, nofun⟩, fun h => h.1⟩
  identity := fun h => h

theorem Merged.copy {first source : CallSource} {rest : List CallSource} (h : Merged rt first rest source)
    (copy : CallSource) : Merged rt first (rest ++ [copy]) (mergeCopy rt (some source) copy) := by
  have hall : (∀ other ∈ rest ++ [copy], other.sourceHash = first.sourceHash) ↔
      (∀ other ∈ rest, other.sourceHash = first.sourceHash) ∧ copy.sourceHash = first.sourceHash := by
    rw [List.forall_mem_append, List.forall_mem_singleton]
  by_cases hsame : source.sourceHash = copy.sourceHash
  · have hcopy : copy.sourceHash = first.sourceHash := hsame.symm.trans h.sourceHash
    have hmerge : mergeCopy rt (some source) copy = source := if_neg (not_not.2 hsame)
    rw [hmerge]
    refine ⟨h.noteId, h.sourceHash, ?_, h.identity⟩
    rw [hall, h.status, and_iff_left hcopy]
  · have hmerge : mergeCopy rt (some source) copy = source.conflicted rt := if_pos hsame
    rw [hmerge]
    refine ⟨h.noteId, h.sourceHash, ⟨nofun, fun hbound => ?_⟩, fun _ => source.conflicted_identity⟩
    exact absurd (h.sourceHash.trans (hall.1 hbound.2).2.symm) hsame

theorem merged_foldl (first : CallSource) (rest : List CallSource) :
    ∃ source, (first :: rest).foldl (fun entry copy => some (mergeCopy rt entry copy)) none = some source ∧
      Merged rt first rest source := by
  rw [List.foldl_cons]
  change ∃ source, rest.foldl _ (some first) = some source ∧ _
  induction rest using List.reverseRecOn with
  | nil => exact ⟨first, rfl, .refl first⟩
  | append_singleton rest copy ih =>
    obtain ⟨source, hsource, hmerged⟩ := ih
    refine ⟨mergeCopy rt (some source) copy, ?_, hmerged.copy copy⟩
    rw [List.foldl_append, hsource]
    rfl

end Merge

end AmoAnalytics.CrmControl.Call
