import AmoAnalytics.Lib.Workers

/-!
# Rivile sales snapshots

`rivile-sales.service.ts`: a month has one row with its documents, the flag of a requested refresh and a
lease. A request and a refresh run statement by statement, each with the time that it read before its
first statement; a worker may stall or stop between any two.
-/

namespace AmoAnalytics.Workspaces

/-! ## Table -/

structure RivileDocument where
  id : String
  content : String
  deriving DecidableEq

/-- `RivileSalesSnapshot`. -/
structure RivileSnapshot where
  documents : List RivileDocument := []
  cutoffAt : Option ℤ := none
  throughDate : Option String := none
  needsRefresh : Bool := false
  requestedAt : Option ℤ := none
  lastAttemptAt : Option ℤ := none
  lastError : Option String := none
  leaseUntil : Option ℤ := none
  runId : Option ℕ := none
  deriving DecidableEq

/-- The rows by month, the clock and the run ids drawn. `requests` records the times of the requests that
were written for a month; no statement reads it. -/
structure RivileDb where
  rows : String → Option RivileSnapshot := fun _ => none
  now : ℤ := 0
  drawn : ℕ := 0
  requests : String → List ℤ := fun _ => []

namespace RivileDb

variable (db : RivileDb)

/-- `updateMany` on the row of a month. -/
def updateMany (month : String) (p : RivileSnapshot → Bool) (f : RivileSnapshot → RivileSnapshot) : RivileDb :=
  { db with
    rows := fun m => if m = month then (db.rows m).map fun row => if p row then f row else row
      else db.rows m }

/-- `upsert` on the row of a month. -/
def upsert (month : String) (create : RivileSnapshot) (f : RivileSnapshot → RivileSnapshot) : RivileDb :=
  { db with rows := fun m => if m = month then some ((db.rows m).elim create f) else db.rows m }

end RivileDb

/-! ## Statements -/

/-- The upsert of `request`. -/
def RivileDb.request (db : RivileDb) (month : String) (requestedAt : ℤ) : RivileDb :=
  { db.upsert month { requestedAt := some requestedAt, needsRefresh := true }
      (fun row => { row with requestedAt := some requestedAt, needsRefresh := true }) with
    requests := fun m => if m = month then db.requests m ++ [requestedAt] else db.requests m }

/-- The lease is free. -/
def RivileSnapshot.free (startedAt : ℤ) (row : RivileSnapshot) : Bool := row.leaseUntil.all (· < startedAt)

def leaseMs : ℤ := 180_000

def RivileSnapshot.claim (startedAt : ℤ) (runId : ℕ) (row : RivileSnapshot) : RivileSnapshot :=
  { row with runId := some runId, leaseUntil := some (startedAt + leaseMs), lastAttemptAt := some startedAt }

def RivileSnapshot.publish (documents : List RivileDocument) (throughDate : String) (startedAt : ℤ)
    (row : RivileSnapshot) : RivileSnapshot :=
  { row with
    documents := documents, throughDate := some throughDate, cutoffAt := some startedAt
    lastError := none, runId := none, leaseUntil := none }

/-- The flag is not of a request after the start. -/
def RivileSnapshot.served (startedAt : ℤ) (row : RivileSnapshot) : Bool := row.requestedAt.all (· ≤ startedAt)

def RivileSnapshot.fail (row : RivileSnapshot) : RivileSnapshot :=
  { row with lastError := some "SOURCE_REFRESH_FAILED", runId := none, leaseUntil := none }

/-- A row that the run holds. -/
def RivileSnapshot.heldBy (runId : ℕ) (row : RivileSnapshot) : Bool := row.runId = some runId

/-! ## Programs -/

/-- A run of `refresh`. `taken` records the cutoff that was stored when the run took the lease; no
statement reads it. -/
structure RivileRun where
  month : String
  startedAt : ℤ
  runId : ℕ
  taken : Option ℤ := none

/-- The documents of one read of the source. -/
structure Loaded where
  documents : List RivileDocument
  throughDate : String

/-- The two reads agree, the documents in any order. -/
def Loaded.agrees (first second : Loaded) : Bool :=
  first.throughDate = second.throughDate && decide (first.documents.Perm second.documents)

inductive RivileThread
  | idle
  /-- `request` with its time. -/
  | requesting (month : String) (requestedAt : ℤ)
  /-- `refresh` before its first upsert, and before the claim. -/
  | starting (run : RivileRun)
  | claiming (run : RivileRun)
  /-- The lease is taken and the source is read. -/
  | loading (run : RivileRun)
  | publishing (run : RivileRun) (loaded : Loaded)
  /-- The documents are stored; the flag is still to be cleared. -/
  | clearing (run : RivileRun)
  | failing (run : RivileRun)

inductive RivileAction
  | tick (now : ℤ)
  /-- The process stops. -/
  | crash
  | beginRequest (month : String)
  | request
  | beginRefresh (month : String)
  | create
  | claim
  | load (first second : Loaded)
  /-- The source cannot be read in time. -/
  | fail
  | publish
  | clear
  | markFailed

/-- The next statement of a program. -/
def rivileAct (db : RivileDb) : RivileThread → RivileAction → Option (RivileDb × RivileThread)
  | _, .crash => some (db, .idle)
  | .idle, .tick now => if db.now ≤ now then some ({ db with now }, .idle) else none
  | .idle, .beginRequest month => some (db, .requesting month db.now)
  | .requesting month requestedAt, .request => some (db.request month requestedAt, .idle)
  | .idle, .beginRefresh month =>
    some ({ db with drawn := db.drawn + 1 }, .starting ⟨month, db.now, db.drawn, none⟩)
  | .starting run, .create => some (db.upsert run.month {} (fun row => row), .claiming run)
  | .claiming run, .claim =>
    if (db.rows run.month).any (·.free run.startedAt) then
      some (db.updateMany run.month (·.free run.startedAt) (·.claim run.startedAt run.runId),
        .loading { run with taken := (db.rows run.month).bind (·.cutoffAt) })
    else some (db, .idle)
  | .loading run, .load first second =>
    some (db, if first.agrees second then .publishing run second else .failing run)
  | .loading run, .fail => some (db, .failing run)
  | .publishing run loaded, .publish =>
    if (db.rows run.month).any (·.heldBy run.runId) then
      some (db.updateMany run.month (·.heldBy run.runId)
        (·.publish loaded.documents loaded.throughDate run.startedAt), .clearing run)
    else some (db, .failing run)
  | .clearing run, .clear =>
    some (db.updateMany run.month (·.served run.startedAt) (fun row => { row with needsRefresh := false }), .idle)
  | .failing run, .markFailed => some (db.updateMany run.month (·.heldBy run.runId) (·.fail), .idle)
  | _, _ => none

/-- No rows, and every worker idle. -/
def rivileStart : World RivileDb RivileThread := World.start {} .idle

end AmoAnalytics.Workspaces
