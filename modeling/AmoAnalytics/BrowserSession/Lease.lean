import AmoAnalytics.Lib.DirectoryScan
import AmoAnalytics.Lib.Run

/-!
# The lease of the browser session

`acquireCrmBrowserSessionLease`: a bakery lock over the directory of its contenders. A contender publishes an
entry without a ticket, scans the directory, publishes a ticket behind all that it has seen, and waits until no
other entry is before it. The holder replaces the state file, which it compares with the bytes it expects.
-/

namespace AmoAnalytics.BrowserSession

/-! ## The directory -/

/-- An entry of the lock directory: `owner.json` and the time of `heartbeat`. -/
structure Entry where
  name : String
  host : String
  pid : ℕ
  ticket : Option ℕ
  heartbeat : ℕ
  deriving DecidableEq

/-- Where `saveState` stands. Behind `written` the temporary file has the complete new bytes. -/
inductive SavePhase (β κ : Type)
  | idle
  | begun (bytes : β) (expectedRawHash : Option κ)
  | compared (bytes : β) (expectedRawHash : Option κ)
  | written (bytes : β) (expectedRawHash : Option κ)
  | verified (bytes : β) (expectedRawHash : Option κ)
  deriving DecidableEq

/-- Where a call stands: the first scan, the reaping after it, the scans of the wait loop and what follows them,
and the lease. -/
inductive LeasePhase (β κ : Type)
  | preparing
  | choosing (scan : Scan String Entry)
  | reaping (initial items : List Entry)
  | waiting (ticket deadline : ℕ) (scan : Scan String Entry)
  | checking (ticket deadline : ℕ) (items : List Entry) (blocked : Bool)
  | holding (ticket : ℕ) (save : SavePhase β κ)
  | leaving
  | gone
  deriving DecidableEq

/-- A call of `acquireCrmBrowserSessionLease` and what it returns; `crashed` when its process has ended. -/
structure Contender (β κ : Type) where
  name : String
  host : String
  pid : ℕ
  waitMs : ℕ
  staleMs : ℕ
  phase : LeasePhase β κ := .preparing
  crashed : Bool := false
  deriving DecidableEq

/-- The lock directory, the state file, the calls, the time, and the process ids that are in use on each host. -/
structure SessionDb (β κ : Type) where
  entries : List Entry := []
  file : Option β
  contenders : List (Contender β κ) := []
  now : ℕ := 0
  running : String → ℕ → Bool := fun _ _ => false

variable {β κ : Type} (db : SessionDb β κ) (c : Contender β κ)

/-! ## The functions of the source -/

/-- `process.kill(pid, 0)` fails only if no process has the id. -/
def SessionDb.definitelyDead (item : Entry) : Bool := item.host = c.host && !db.running item.host item.pid

/-- The condition of `reap`. -/
def SessionDb.reaps (item : Entry) : Bool := c.staleMs < db.now - item.heartbeat && db.definitelyDead c item

/-- The entry is before a contender with this ticket and name. -/
def Entry.blocks (ticket : ℕ) (name : String) (item : Entry) : Bool :=
  match item.ticket with
  | none => true
  | some other => other < ticket || (other = ticket && item.name < name)

def maxSafeInteger : ℕ := 2 ^ 53 - 1

/-- A ticket behind all that have been read. -/
def nextTicket (initial : List Entry) : ℕ := (initial.map fun item => item.ticket.getD 0).foldl max 0 + 1

/-- `rm` of an entry. -/
def removeEntry (name : String) (entries : List Entry) : List Entry := entries.filter (·.name ≠ name)

/-- An update of the files of one entry. -/
def updateEntry (name : String) (f : Entry → Entry) (entries : List Entry) : List Entry :=
  entries.map fun item => if item.name = name then f item else item

def Entry.publish (ticket : ℕ) (item : Entry) : Entry := { item with ticket := some ticket }

def Entry.touch (now : ℕ) (item : Entry) : Entry := { item with heartbeat := now }

/-! ## Moves -/

inductive Move (β κ : Type)
  | enter
  | scan (m : ScanMove String)
  | gather
  | examine
  | publish
  | finish
  | fail
  | leave
  | touch
  | save (bytes : β) (expectedRawHash : Option κ)
  | compare
  | write
  | verify
  | replace
  | failSave
  | release
  deriving DecidableEq

/-- The directory, the state file and the phase after a move. -/
def SessionDb.move [DecidableEq κ] (hash : β → κ) : Move β κ → LeasePhase β κ → Option (List Entry × Option β × LeasePhase β κ)
  | .enter, .preparing =>
    some (db.entries ++ [⟨c.name, c.host, c.pid, none, db.now⟩], db.file, .choosing .closed)
  -- The first scan; the entries that it finds dead are removed.
  | .scan m, .choosing scan =>
    (scan.move Entry.name db.entries m).map fun next => (db.entries, db.file, .choosing next)
  | .gather, .choosing scan => scan.result.map fun initial => (db.entries, db.file, .reaping initial initial)
  | .examine, .reaping initial (item :: items) =>
    some (if item.name ≠ c.name ∧ db.reaps c item then removeEntry item.name db.entries else db.entries, db.file,
      .reaping initial items)
  | .publish, .reaping initial [] =>
    if nextTicket initial ≤ maxSafeInteger then
      some (updateEntry c.name (Entry.publish (nextTicket initial)) db.entries, db.file,
        .waiting (nextTicket initial) (db.now + c.waitMs) .closed)
    else some (db.entries, db.file, .leaving)
  -- One round of the wait loop.
  | .scan m, .waiting ticket deadline scan =>
    (scan.move Entry.name db.entries m).map fun next => (db.entries, db.file, .waiting ticket deadline next)
  | .gather, .waiting ticket deadline scan =>
    scan.result.map fun items => (db.entries, db.file, .checking ticket deadline items false)
  | .examine, .checking ticket deadline (item :: items) blocked =>
    if item.name = c.name then some (db.entries, db.file, .checking ticket deadline items blocked)
    else if db.reaps c item then
      some (removeEntry item.name db.entries, db.file, .checking ticket deadline items blocked)
    else some (db.entries, db.file, .checking ticket deadline items (blocked || item.blocks ticket c.name))
  | .finish, .checking ticket deadline [] blocked =>
    some (db.entries, db.file, if !blocked then .holding ticket .idle
      else if deadline ≤ db.now then .leaving else .waiting ticket deadline .closed)
  -- An error before the lease: the entry is removed.
  | .fail, .preparing => some (db.entries, db.file, .gone)
  | .fail, .choosing _ | .fail, .reaping .. | .fail, .waiting .. | .fail, .checking .. =>
    some (db.entries, db.file, .leaving)
  | .leave, .leaving => some (removeEntry c.name db.entries, db.file, .gone)
  -- The lease.
  | .touch, .holding ticket save =>
    some (updateEntry c.name (Entry.touch db.now) db.entries, db.file, .holding ticket save)
  | .save bytes expected, .holding ticket .idle =>
    some (db.entries, db.file, .holding ticket (.begun bytes expected))
  | .compare, .holding ticket (.begun bytes expected) => some (db.entries, db.file,
    .holding ticket (if db.file.map hash = expected then .compared bytes expected else .idle))
  | .write, .holding ticket (.compared bytes expected) =>
    some (db.entries, db.file, .holding ticket (.written bytes expected))
  | .verify, .holding ticket (.written bytes expected) => some (db.entries, db.file,
    .holding ticket (if db.file.map hash = expected then .verified bytes expected else .idle))
  | .replace, .holding ticket (.verified bytes _) => some (db.entries, some bytes, .holding ticket .idle)
  | .failSave, .holding ticket _ => some (db.entries, db.file, .holding ticket .idle)
  | .release, .holding _ .idle => some (removeEntry c.name db.entries, db.file, .gone)
  | _, _ => none

/-! ## Histories -/

/-- Time passes, processes start and end, calls begin, and each call moves. -/
inductive LeaseAction (β κ : Type)
  | tick (elapsed : ℕ)
  | spawn (host : String) (pid : ℕ)
  | crash (host : String) (pid : ℕ)
  | call (name host : String) (pid waitMs staleMs : ℕ)
  | act (i : ℕ) (move : Move β κ)
  deriving DecidableEq

/-- The process with this id ends. -/
def Contender.crash (host : String) (pid : ℕ) : Contender β κ :=
  if c.host = host ∧ c.pid = pid then { c with crashed := true } else c

/-- The names of the calls are unique, and the options are checked. -/
def leaseStep [DecidableEq κ] (hash : β → κ) (db : SessionDb β κ) : LeaseAction β κ → Option (SessionDb β κ)
  | .tick elapsed => some { db with now := db.now + elapsed }
  | .spawn host pid => if db.running host pid then none else
    some { db with running := fun h p => if h = host ∧ p = pid then true else db.running h p }
  | .crash host pid => some { db with
      running := fun h p => if h = host ∧ p = pid then false else db.running h p
      contenders := db.contenders.map (·.crash host pid) }
  | .call name host pid waitMs staleMs =>
    if db.running host pid ∧ (db.contenders.all (·.name ≠ name)) ∧ waitMs ≤ 60_000 ∧ 30_000 ≤ staleMs ∧
        staleMs ≤ 600_000 then
      some { db with contenders := db.contenders ++ [{ name, host, pid, waitMs, staleMs }] }
    else none
  | .act i move => db.contenders[i]?.bind fun c => if c.crashed then none else
    (db.move c hash move c.phase).map fun next => { db with
      entries := next.1, file := next.2.1, contenders := db.contenders.set i { c with phase := next.2.2 } }

end AmoAnalytics.BrowserSession
