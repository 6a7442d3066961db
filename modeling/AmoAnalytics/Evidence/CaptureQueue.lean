import AmoAnalytics.Lib.Run
import AmoAnalytics.Lib.Table

/-!
# The queue of evidence captures

`processEvidenceQueue` and the calls that create a row or put it back: `ensureEvidenceForObservation`,
`retryEvidence` and `requeueDisabledEvidence`. A worker claims a row, checks the owner of the deal, captures the
card, checks the owner again and writes the result under its lease, the start time and the attempt of its claim.
-/

namespace AmoAnalytics.Evidence

open Table

/-! ## Rows -/

inductive EvidenceStatus
  | pending
  | running
  | ready
  | error
  | disabled
  deriving DecidableEq

/-- The columns of the observation that a capture is checked against. -/
structure Observed where
  dealExternalId : String
  managerId : Option String
  groupId : Option String
  deriving DecidableEq

/-- A row of `CrmControlEvidence` with its observation. Times are in milliseconds. -/
structure EvidenceRow where
  id : String
  observationId : String
  observation : Observed
  sourceUrl : String
  status : EvidenceStatus
  attempts : ℕ := 0
  startedAt : Option ℕ := none
  nextAttemptAt : Option ℕ := none
  storageKey : Option String := none
  contentType : Option String := none
  sha256 : Option String := none
  capturedAt : Option ℕ := none
  coverage : Option String := none
  error : Option String := none
  createdAt : ℕ
  deriving DecidableEq

inductive CaptureStatus
  | ready
  | error
  | disabled
  deriving DecidableEq

def CaptureStatus.toEvidence : CaptureStatus → EvidenceStatus
  | .ready => .ready
  | .error => .error
  | .disabled => .disabled

/-- `CrmControlCaptureResult`; a missing value leaves its column as it is. -/
structure CaptureResult where
  status : CaptureStatus
  storageKey : Option String := none
  mimeType : Option String := none
  sha256 : Option String := none
  capturedAt : Option ℕ := none
  message : Option String := none
  retryable : Option Bool := none
  deriving DecidableEq

/-! ## The source of the cards -/

/-- What does not change: the ids of users and groups in amoCRM, and the host of an address. -/
structure CaptureEnv where
  userExternalId : String → Option String
  groupExternalId : String → Option String
  hostname : String → String

/-- amoCRM: the user in charge of a deal and the group of a user, `none` if the answer has no group field. -/
structure SourceCrm where
  domain : String
  responsible : String → Option String
  groupOf : String → Option (Option String)

/-- The manager of the observation is in charge of the deal. -/
def SourceCrm.OwnerIs (crm : SourceCrm) (env : CaptureEnv) (o : Observed) : Prop :=
  ∃ manager, o.managerId.bind env.userExternalId = some manager ∧ crm.responsible o.dealExternalId = some manager

/-- The manager of the observation is in its group. -/
def SourceCrm.GroupIs (crm : SourceCrm) (env : CaptureEnv) (o : Observed) : Prop :=
  ∃ manager, o.managerId.bind env.userExternalId = some manager ∧
    crm.groupOf manager = some (o.groupId.bind env.groupExternalId)

/-! ## Statements -/

def interrupted : String := "Сбор подтверждения прерван. После трёх попыток доступен ручной повтор."

def ownerChanged : String :=
  "Ответственный или группа изменились. Новый снимок нельзя прикрепить к прежней проверке."

def ownerChangedMeanwhile : String :=
  "Ответственный или группа изменились во время съёмки. Снимок не прикреплён."

def captureFailed : String :=
  "Не удалось проверить доступ к текущей карточке или сохранить снимок amoCRM"

/-- A running row whose worker has not finished in ten minutes. -/
def EvidenceRow.stale (readAt : ℕ) (row : EvidenceRow) : Bool :=
  row.status = .running && row.startedAt.any (· + 600_000 < readAt)

def EvidenceRow.interrupt (now : ℕ) (row : EvidenceRow) : EvidenceRow :=
  { row with status := .error, nextAttemptAt := some now, error := some interrupted }

/-- The rows that a worker looks for. -/
def EvidenceRow.due (now : ℕ) (row : EvidenceRow) : Bool :=
  (row.status = .pending && row.nextAttemptAt.all (· ≤ now)) ||
    (row.status = .error && row.attempts < 3 && row.nextAttemptAt.any (· ≤ now))

/-- The condition of a claim. -/
def EvidenceRow.same (job row : EvidenceRow) : Bool :=
  row.id = job.id && row.status = job.status && row.attempts = job.attempts

def EvidenceRow.claim (claimedAt : ℕ) (row : EvidenceRow) : EvidenceRow :=
  { row with status := .running, startedAt := some claimedAt, nextAttemptAt := none, attempts := row.attempts + 1 }

/-- The lease of a claim. -/
structure Lease where
  id : String
  startedAt : ℕ
  attempts : ℕ
  deriving DecidableEq

def Lease.holds (lease : Lease) (row : EvidenceRow) : Bool :=
  row.id = lease.id && row.status = .running && row.startedAt = some lease.startedAt && row.attempts = lease.attempts

/-- What a worker writes at the end. -/
inductive Outcome
  | error (nextAttemptAt : Option ℕ) (message : String)
  | captured (result : CaptureResult) (nextAttemptAt : Option ℕ)
  deriving DecidableEq

def Outcome.write : Outcome → EvidenceRow → EvidenceRow
  | .error nextAttemptAt message, row =>
    { row with status := .error, nextAttemptAt := nextAttemptAt, error := some message }
  | .captured result nextAttemptAt, row => { row with
      status := result.status.toEvidence
      storageKey := result.storageKey <|> row.storageKey
      contentType := result.mimeType <|> row.contentType
      sha256 := result.sha256 <|> row.sha256
      capturedAt := result.capturedAt <|> row.capturedAt
      nextAttemptAt := nextAttemptAt
      coverage := if result.status = .ready then result.message <|> row.coverage else none
      error := if result.status = .ready then none else result.message <|> row.error }

/-- Each of the first two failures doubles the delay. -/
def Lease.retryAt (lease : Lease) (now : ℕ) : Option ℕ :=
  if lease.attempts < 3 then some (now + 30_000 * 2 ^ (lease.attempts - 1)) else none

/-- The data of `retryEvidence` and `requeueDisabledEvidence`. -/
def EvidenceRow.reset (row : EvidenceRow) : EvidenceRow :=
  { row with status := .pending, attempts := 0, startedAt := none, nextAttemptAt := none, error := none }

/-! ## Calls -/

/-- Where `captureOwnerMatches` stands: the stored ids, the deal, the user. -/
inductive CheckStage
  | ids
  | deal (manager : String) (group : Option String)
  | user (manager : String) (group : Option String)
  deriving DecidableEq

/-- Where a call of `processEvidenceQueue` stands, or a call of `retryEvidence` that has read its row. The second
check has the result of the capture; `caught` when the outcome is the one of the `catch`. -/
inductive CallPhase
  | started
  | recovering (now : ℕ)
  | searching (now : ℕ)
  | found (job : EvidenceRow)
  | claiming (job : EvidenceRow) (claimedAt : ℕ)
  | checking (job : EvidenceRow) (lease : Lease) (result : Option CaptureResult) (stage : CheckStage)
  | capturing (job : EvidenceRow) (lease : Lease)
  | writing (job : EvidenceRow) (lease : Lease) (outcome : Outcome) (caught : Bool)
  | retrying (id : String) (status : EvidenceStatus)
  | done
  deriving DecidableEq

/-- The lease of a worker that has not written yet. -/
def CallPhase.lease : CallPhase → Option Lease
  | .checking _ lease _ _ | .capturing _ lease | .writing _ lease _ _ => some lease
  | _ => none

/-- The row that a worker has claimed and not written yet, as it has read it. -/
def CallPhase.job : CallPhase → Option EvidenceRow
  | .checking job _ _ _ | .capturing job _ | .writing job _ _ _ => some job
  | _ => none

/-- What has happened, the latest event first. A check is recorded with the state of amoCRM that it has passed on. -/
inductive Event
  | recovered (ids : List String)
  | reset (ids : List String)
  | claimed (i : ℕ) (id : String)
  | ownerMatched (i : ℕ) (crm : SourceCrm)
  | groupMatched (i : ℕ) (crm : SourceCrm)
  | captured (i : ℕ)
  | wrote (i : ℕ) (id : String)

/-- The table, amoCRM, the time, the calls and their history. -/
structure EvidenceDb where
  rows : List EvidenceRow := []
  crm : SourceCrm
  now : ℕ := 0
  calls : List CallPhase := []
  history : List Event := []

inductive Move
  | begin
  | recover (readAt : ℕ)
  | find (id : String)
  | nothing
  | stamp
  | claim
  | check
  | capture (result : CaptureResult)
  | fail
  | write
  | reset
  deriving DecidableEq

/-- A check that has not passed. -/
def mismatch (job : EvidenceRow) (lease : Lease) (result : Option CaptureResult) : CallPhase :=
  .writing job lease (.error none (if result.isSome then ownerChangedMeanwhile else ownerChanged)) false

/-- What follows a check that has passed: the capture, or writing what has been captured. -/
def passed (job : EvidenceRow) (lease : Lease) : Option CaptureResult → CallPhase
  | none => .capturing job lease
  | some result => .writing job lease (.captured result none) false

variable (env : CaptureEnv) (db : EvidenceDb)

/-- One statement of `captureOwnerMatches`. -/
def EvidenceDb.check (i : ℕ) (job : EvidenceRow) (lease : Lease) (result : Option CaptureResult) :
    CheckStage → Option (List Event × CallPhase)
  | .ids =>
    match job.observation.managerId.bind env.userExternalId with
    | none => some ([], mismatch job lease result)
    | some manager =>
      if job.observation.groupId.any fun groupId => (env.groupExternalId groupId).isNone then
        some ([], mismatch job lease result)
      else if env.hostname job.sourceUrl ≠ db.crm.domain then some ([], mismatch job lease result)
      else some ([], .checking job lease result
        (.deal manager (job.observation.groupId.bind env.groupExternalId)))
  | .deal manager group =>
    if db.crm.responsible job.observation.dealExternalId = some manager then
      some ([.ownerMatched i db.crm], .checking job lease result (.user manager group))
    else some ([], mismatch job lease result)
  | .user manager group =>
    (db.crm.groupOf manager).map fun current =>
      if current = group then ([.groupMatched i db.crm], passed job lease result)
      else ([], mismatch job lease result)

/-- The rows, the events and the phase after a move of the call `i`. -/
def EvidenceDb.move (i : ℕ) : Move → CallPhase → Option (List EvidenceRow × List Event × CallPhase)
  | .begin, .started => some (db.rows, [], .recovering db.now)
  | .recover readAt, .recovering now => if now ≤ readAt ∧ readAt ≤ db.now then
      some (updateWhere (EvidenceRow.stale readAt) (EvidenceRow.interrupt now) db.rows,
        [.recovered ((db.rows.filter (EvidenceRow.stale readAt)).map EvidenceRow.id)], .searching now)
    else none
  -- The oldest due row.
  | .find id, .searching now =>
    (db.rows.find? fun row => row.id = id ∧ row.due now ∧
      ∀ other ∈ db.rows, other.due now = true → row.createdAt ≤ other.createdAt).map fun job =>
        (db.rows, [], .found job)
  | .nothing, .searching now =>
    if db.rows.any (EvidenceRow.due now) then none else some (db.rows, [], .done)
  | .stamp, .found job => some (db.rows, [], .claiming job db.now)
  | .claim, .claiming job claimedAt =>
    if db.rows.any job.same then
      some (updateWhere job.same (EvidenceRow.claim claimedAt) db.rows, [.claimed i job.id],
        .checking job ⟨job.id, claimedAt, job.attempts + 1⟩ none .ids)
    else some (db.rows, [], .done)
  | .check, .checking job lease result stage =>
    (db.check env i job lease result stage).map fun next => (db.rows, next.1, next.2)
  | .capture result, .capturing job lease => some (db.rows, [.captured i],
      if result.status = .ready then .checking job lease (some result) .ids
      else .writing job lease (.captured result
        (if result.status = .error ∧ result.retryable ≠ some false then lease.retryAt db.now else none)) false)
  | .fail, .checking job lease _ _ | .fail, .capturing job lease | .fail, .writing job lease _ false =>
    some (db.rows, [], .writing job lease (.error (lease.retryAt db.now) captureFailed) true)
  | .write, .writing job lease outcome _ =>
    if db.rows.any lease.holds then
      some (updateWhere lease.holds outcome.write db.rows, [.wrote i job.id], .done)
    else some (db.rows, [], .done)
  | .reset, .retrying id status =>
    if db.rows.any fun row => row.id = id ∧ row.status = status then
      some (updateWhere (fun row => row.id = id ∧ row.status = status) EvidenceRow.reset db.rows,
        [.reset [id]], .done)
    else some (db.rows, [], .done)
  | _, _ => none

/-! ## Histories -/

inductive EvidenceAction
  | tick (elapsed : ℕ)
  | crm (crm : SourceCrm)
  | ensure (id observationId : String) (observation : Observed) (sourceUrl : String) (unavailable : Option String)
  | requeue
  | process
  | retry (id : String)
  | act (i : ℕ) (move : Move)

/-- A new row; `unavailable` is the message when screenshots are not possible. -/
def newRow (id observationId : String) (observation : Observed) (sourceUrl : String) (unavailable : Option String)
    (now : ℕ) : EvidenceRow where
  id := id
  observationId := observationId
  observation := observation
  sourceUrl := sourceUrl
  status := if unavailable.isNone then .pending else .disabled
  error := unavailable
  createdAt := now

/-- Time passes, amoCRM changes, rows are created and put back, and each call moves. -/
def evidenceStep (db : EvidenceDb) : EvidenceAction → Option EvidenceDb
  | .tick elapsed => some { db with now := db.now + elapsed }
  | .crm crm => some { db with crm }
  | .ensure id observationId observation sourceUrl unavailable =>
    if db.rows.any fun row => row.observationId = observationId then some db
    else if db.rows.any fun row => row.id = id then none
    else some { db with
      rows := db.rows ++ [newRow id observationId observation sourceUrl unavailable db.now] }
  | .requeue => some { db with
      rows := updateWhere (fun row => row.status = .disabled) EvidenceRow.reset db.rows
      history := .reset ((db.rows.filter fun row => row.status = .disabled).map EvidenceRow.id) :: db.history }
  | .process => some { db with calls := db.calls ++ [.started] }
  | .retry id => (db.rows.find? fun row => row.id = id).bind fun row =>
      if row.status = .error ∨ row.status = .disabled then
        some { db with calls := db.calls ++ [.retrying id row.status] }
      else none
  | .act i move => db.calls[i]?.bind fun phase => (db.move env i move phase).map fun next => { db with
      rows := next.1, history := next.2.1 ++ db.history, calls := db.calls.set i next.2.2 }

end AmoAnalytics.Evidence
