import AmoAnalytics.Lib.Run

/-!
# The pause of Telegram

`sendChatMessage` holds a shared advisory lock while it reads the switch and asks Telegram; `settings` and
`pause` write the switch under the exclusive lock. The locks end with their transactions, and a transaction
ends by a commit or after its time limit; the request to Telegram has a time limit of its own.
-/

namespace AmoAnalytics.Platform

/-! ## Callers -/

/-- The columns of `TelegramSettings` that matter. -/
structure PauseSettings where
  enabled : Bool
  version : ℕ
  deriving DecidableEq

/-- A pause, or an edit of the settings with the version that the form has read. -/
inductive AdminRequest
  | pause
  | edit (version : ℕ) (enabled : Bool)
  deriving DecidableEq

inductive SendPhase
  | waiting
  | locked
  | checked
  | requesting (beganAt : ℕ)
  | responded
  deriving DecidableEq

inductive AdminPhase
  | waiting
  | locked
  | written (settings : PauseSettings)
  deriving DecidableEq

/-- A call of `sendChatMessage` or of the two handlers, with the start of its transaction. The transaction of a
sender may end before the sender does. -/
inductive Caller
  | sender (startedAt : ℕ) (isOpen : Bool) (phase : SendPhase)
  | admin (startedAt : ℕ) (request : AdminRequest) (phase : AdminPhase)
  | done
  deriving DecidableEq

/-- The committed settings, the time in milliseconds and the callers. -/
structure PauseDb where
  settings : PauseSettings
  now : ℕ := 0
  callers : List Caller := []
  deriving DecidableEq

/-- `pg_advisory_xact_lock_shared`, from its return to the end of the transaction. -/
def Caller.holdsShared : Caller → Bool
  | .sender _ true phase => phase ≠ .waiting
  | _ => false

/-- `pg_advisory_xact_lock`. -/
def Caller.holdsExclusive : Caller → Bool
  | .admin _ _ phase => phase ≠ .waiting
  | _ => false

/-- A request to Telegram is open. -/
def Caller.isRequesting : Caller → Bool
  | .sender _ _ (.requesting _) => true
  | _ => false

/-! ## Time limits -/

def sendTimeoutMs : ℕ := 20000

def adminTimeoutMs : ℕ := 30000

/-- `AbortSignal.timeout` of a request. -/
def requestTimeoutMs : ℕ := 12000

/-- The transaction is over its limit. -/
def Caller.overdue (now : ℕ) : Caller → Bool
  | .sender startedAt isOpen _ => isOpen && startedAt + sendTimeoutMs ≤ now
  | .admin startedAt _ _ => startedAt + adminTimeoutMs ≤ now
  | .done => false

/-- The transaction is rolled back. The next statement fails, but a sender behind its last statement goes on. -/
def Caller.expired : Caller → Caller
  | .sender _ _ .waiting | .sender _ _ .locked => .done
  | .sender startedAt _ phase => .sender startedAt false phase
  | .admin .. | .done => .done

/-- No request lasts longer than its limit. -/
def Caller.allows (now : ℕ) : Caller → Bool
  | .sender _ _ (.requesting beganAt) => now ≤ beganAt + requestTimeoutMs
  | _ => true

/-! ## Steps -/

/-- The row that a handler writes, if it does not reject the version. -/
def AdminRequest.apply (request : AdminRequest) (old : PauseSettings) : Option PauseSettings :=
  match request with
  | .pause => some ⟨false, old.version + 1⟩
  | .edit version enabled => if old.version ≠ version then none else some ⟨enabled, old.version + 1⟩

inductive Move
  | lock
  | read
  | request
  | respond
  | write
  | commit
  | expire
  deriving DecidableEq

/-- The committed settings and the caller after a move. -/
def PauseDb.move (db : PauseDb) : Move → Caller → Option (PauseSettings × Caller)
  | .lock, .sender startedAt true .waiting =>
    if db.callers.any Caller.holdsExclusive then none
    else some (db.settings, .sender startedAt true .locked)
  | .lock, .admin startedAt request .waiting =>
    if db.callers.any fun caller => caller.holdsShared || caller.holdsExclusive then none
    else some (db.settings, .admin startedAt request .locked)
  | .read, .sender startedAt true .locked =>
    some (db.settings, if db.settings.enabled then .sender startedAt true .checked else .done)
  | .request, .sender startedAt isOpen .checked =>
    some (db.settings, .sender startedAt isOpen (.requesting db.now))
  | .respond, .sender startedAt isOpen (.requesting _) =>
    some (db.settings, .sender startedAt isOpen .responded)
  | .write, .admin startedAt request .locked =>
    some (db.settings, match request.apply db.settings with
      | some next => .admin startedAt request (.written next)
      | none => .done)
  | .commit, .sender _ _ .responded => some (db.settings, .done)
  | .commit, .admin _ _ (.written next) => some (next, .done)
  | .expire, caller => if caller.overdue db.now then some (db.settings, caller.expired) else none
  | _, _ => none

inductive PauseAction
  | tick (elapsed : ℕ)
  | send
  | administer (request : AdminRequest)
  | act (i : ℕ) (move : Move)

/-- Time passes, callers arrive, and each of them moves, in any order. -/
def pauseStep (db : PauseDb) : PauseAction → Option PauseDb
  | .tick elapsed =>
    if db.callers.all (Caller.allows (db.now + elapsed)) then some { db with now := db.now + elapsed } else none
  | .send => some { db with callers := db.callers ++ [.sender db.now true .waiting] }
  | .administer request => some { db with callers := db.callers ++ [.admin db.now request .waiting] }
  | .act i move => db.callers[i]?.bind fun caller =>
    (db.move move caller).map fun next => { db with settings := next.1, callers := db.callers.set i next.2 }

end AmoAnalytics.Platform
