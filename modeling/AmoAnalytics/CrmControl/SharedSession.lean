import AmoAnalytics.Lib.PromiseChain
import AmoAnalytics.Lib.Run

/-!
# The shared session of the collector

`withCard` and `withSourceBatch` read through one authenticated browser context. `withAuthSession` counts
its users in `authSessionUsers`, shares the promise `authSession` of the opening, and lets the last user
close the session while later ones wait for the promise `authSessionClosing`. The model has one step for
every stretch of code between two awaits.

When the closing settles, the runtime queues its reactions at once: first the one of the user who closes,
who has awaited the promise since it was made, then those of the waiting users in the order in which they
came. What a reaction opens or rejects is heard only after the reactions already queued, so while some are
left (`reactions`) only they and new calls run.
-/

namespace AmoAnalytics.CrmControl.Session

open PromiseChain Run Actors

/-! ## Sessions -/

/-- A session from its opening to the end of its closing. `draining` holds the tail that
`closeAuthSession` awaits, `releasing` whether `context.close` has failed. -/
inductive SessionPhase
  | acquiring
  | leased
  | live
  | dropping
  | failed
  | draining (tail : Option ℕ)
  | closingContext
  | releasing (closeFailed : Bool)
  | closed
  deriving DecidableEq

/-- The steps of `openAuthSession`: the lease is acquired or not, and an opening that fails with the lease
gives it back before it rejects. -/
def SessionPhase.opens : SessionPhase → SessionPhase → Bool
  | .acquiring, .leased => true
  | .acquiring, .failed => true
  | .leased, .live => true
  | .leased, .dropping => true
  | .dropping, .failed => true
  | _, _ => false

/-- Neither the lease nor the context is held any more. -/
def SessionPhase.over : SessionPhase → Bool
  | .failed => true
  | .closed => true
  | _ => false

/-- A session, with the reads chained on its tail and the number of calls of `context.close`. -/
structure AuthSession where
  phase : SessionPhase
  reads : Chain
  closes : ℕ
  deriving DecidableEq

def AuthSession.opening : AuthSession := ⟨.acquiring, .empty, 0⟩

/-- One step of the closing, with whether the closing has then ended and failed: an opening that has failed
leaves nothing to close, and otherwise the tail is awaited, the context closed and the lease released,
whether the context could be closed or not. -/
def AuthSession.close (σ : AuthSession) (failed : Bool) : Option (AuthSession × Option Bool) :=
  match σ.phase with
  | .failed => some (σ, some false)
  | .live => some ({ σ with phase := .draining σ.reads.tail }, none)
  | .draining tail =>
    if σ.reads.settled tail then some ({ σ with phase := .closingContext, closes := σ.closes + 1 }, none) else none
  | .closingContext => some ({ σ with phase := .releasing failed }, none)
  | .releasing closeFailed => some ({ σ with phase := .closed }, some (closeFailed || failed))
  | _ => none

/-! ## Users -/

inductive UserKind
  | card
  | batch
  deriving DecidableEq

/-- A call of `withAuthSession`. It waits for a closing, has joined a session whose opening it awaits, acts
in it, awaits a promise of its chain (the own read of `withCard`, the tail at the end of `withSourceBatch`),
awaits the closing that it has begun, has ended, or was rejected with the failure of the closing that it
waited for. -/
inductive UserPhase
  | waiting
  | joined (session : ℕ)
  | acting (session : ℕ)
  | awaiting (session : ℕ) (read : Option ℕ)
  | owning (session : ℕ)
  | done (session : ℕ)
  | rejected
  deriving DecidableEq

/-- The session that the user is counted in. -/
def UserPhase.seat : UserPhase → Option ℕ
  | .joined g => some g
  | .acting g => some g
  | .awaiting g _ => some g
  | _ => none

/-- The session that the user has obtained. -/
def UserPhase.obtained : UserPhase → Option ℕ
  | .joined g => some g
  | .acting g => some g
  | .awaiting g _ => some g
  | .owning g => some g
  | .done g => some g
  | _ => none

structure User where
  kind : UserKind
  phase : UserPhase
  deriving DecidableEq

/-- The promise of a closing: who has begun it, who waits for it, and once it has settled whether it failed. -/
structure Closing where
  session : ℕ
  owner : ℕ
  waiters : List ℕ
  settled : Option Bool
  deriving DecidableEq

structure State where
  sessions : List AuthSession
  users : List User
  authSession : Option ℕ
  authSessionUsers : ℕ
  authSessionClosing : Option Closing
  reactions : List (ℕ × Bool)
  deriving DecidableEq

def State.init : State := ⟨[], [], none, 0, none, []⟩

namespace State

variable (s : State)

def setUser (u : ℕ) (kind : UserKind) (phase : UserPhase) : State :=
  { s with users := s.users.set u ⟨kind, phase⟩ }

def setSession (g : ℕ) (σ : AuthSession) : State :=
  { s with sessions := s.sessions.set g σ }

/-- From the count to the shared promise: `authSession ??= openAuthSession()`. -/
def enter (u : ℕ) (kind : UserKind) : State :=
  match s.authSession with
  | some g => { s.setUser u kind (.joined g) with authSessionUsers := s.authSessionUsers + 1 }
  | none =>
    { s.setUser u kind (.joined s.sessions.length) with
      sessions := s.sessions ++ [.opening]
      authSession := some s.sessions.length
      authSessionUsers := s.authSessionUsers + 1 }

/-- The session that a user who enters joins. -/
def target : ℕ := s.authSession.getD s.sessions.length

/-- What entering does: the user joins the session under way, or a new one after those there are. -/
theorem enter_eq (u : ℕ) (kind : UserKind) :
    s.enter u kind =
      { s.setUser u kind (.joined s.target) with
        sessions := if s.authSession = none then s.sessions ++ [.opening] else s.sessions
        authSession := some s.target
        authSessionUsers := s.authSessionUsers + 1 } := by
  unfold State.enter target
  cases hauth : s.authSession with
  | none => rfl
  | some g => simp [setUser, hauth]

def withUser (kind : UserKind) : State :=
  { s with users := s.users ++ [⟨kind, .waiting⟩] }

/-- A call of `withAuthSession`. -/
def arrive (kind : UserKind) : State :=
  match s.authSessionClosing with
  | none => (s.withUser kind).enter s.users.length kind
  | some c =>
    match c.settled with
    | none => { s.withUser kind with authSessionClosing := some { c with waiters := c.waiters ++ [s.users.length] } }
    | some failed => { s.withUser kind with reactions := s.reactions ++ [(s.users.length, failed)] }

variable {s}

/-- Without a closing the new user enters at once. -/
theorem arrive_enter (hc : s.authSessionClosing = none) (kind : UserKind) :
    s.arrive kind = (s.withUser kind).enter s.users.length kind := by
  simp only [arrive, hc]

/-- The new user waits for the closing under way. -/
theorem arrive_wait {c : Closing} (hc : s.authSessionClosing = some c) (hset : c.settled = none) (kind : UserKind) :
    s.arrive kind =
      { s.withUser kind with authSessionClosing := some { c with waiters := c.waiters ++ [s.users.length] } } := by
  simp only [arrive, hc, hset]

/-- The new user hears of a settled closing after those who waited for it. -/
theorem arrive_behind {c : Closing} {f : Bool} (hc : s.authSessionClosing = some c) (hset : c.settled = some f)
    (kind : UserKind) :
    s.arrive kind = { s.withUser kind with reactions := s.reactions ++ [(s.users.length, f)] } := by
  simp only [arrive, hc, hset]

variable (s)

/-- The `finally` of `withAuthSession`: the last user of the session begins its closing. -/
def leave (u : ℕ) (kind : UserKind) (g : ℕ) : State :=
  if s.authSessionUsers - 1 = 0 ∧ s.authSession = some g then
    { s.setUser u kind (.owning g) with
      authSessionUsers := s.authSessionUsers - 1
      authSession := none
      authSessionClosing := some ⟨g, u, [], none⟩ }
  else { s.setUser u kind (.done g) with authSessionUsers := s.authSessionUsers - 1 }

/-- The closing settles: its reactions are queued. -/
def settle (c : Closing) (failed : Bool) : State :=
  { s with
    authSessionClosing := some { c with waiters := [], settled := some failed }
    reactions := (c.owner, failed) :: c.waiters.map (·, failed) }

/-- The next reaction of a settled closing: `authSessionClosing` is cleared by the user who closed, and a
user who waited goes on or is rejected. -/
def resume : Option State :=
  match s.reactions with
  | [] => none
  | (u, failed) :: rest =>
    match s.users[u]? with
    | some ⟨kind, .owning g⟩ =>
      some { s.setUser u kind (.done g) with
        reactions := rest
        authSessionClosing :=
          if s.authSessionClosing.map (·.owner) = some u then none else s.authSessionClosing }
    | some ⟨kind, .waiting⟩ =>
      if failed then some { s.setUser u kind .rejected with reactions := rest }
      else some ({ s with reactions := rest }.enter u kind)
    | _ => none

/-- A step of `openAuthSession`. -/
def opening (g : ℕ) (phase : SessionPhase) : Option State :=
  match s.sessions[g]? with
  | none => none
  | some σ => if σ.phase.opens phase then some (s.setSession g { σ with phase := phase }) else none

/-- The awaited opening has settled: a card queues its read and awaits it, a batch begins its action, and
who hears that the opening has failed leaves. -/
def begin (u : ℕ) : Option State :=
  match s.users[u]? with
  | some ⟨kind, .joined g⟩ =>
    match s.sessions[g]? with
    | none => none
    | some σ =>
      match σ.phase with
      | .live =>
        match kind with
        | .card => some ((s.setSession g { σ with reads := σ.reads.push u }).setUser u kind
            (.awaiting g (some σ.reads.jobs.length)))
        | .batch => some (s.setUser u kind (.acting g))
      | .failed => some (s.leave u kind g)
      | _ => none
  | _ => none

/-- The action of a batch queues a read. -/
def queue (u : ℕ) : Option State :=
  match s.users[u]? with
  | some ⟨_, .acting g⟩ =>
    match s.sessions[g]? with
    | none => none
    | some σ => some (s.setSession g { σ with reads := σ.reads.push u })
  | _ => none

/-- The action of a batch has ended: nothing more is accepted, and the tail is awaited. -/
def finish (u : ℕ) : Option State :=
  match s.users[u]? with
  | some ⟨kind, .acting g⟩ =>
    match s.sessions[g]? with
    | none => none
    | some σ => some (s.setUser u kind (.awaiting g σ.reads.tail))
  | _ => none

/-- A read takes a step: it starts, uses the context, saves the cookies or ends. -/
def read (g i : ℕ) (phase : Phase) : Option State :=
  match s.sessions[g]? with
  | none => none
  | some σ =>
    match σ.reads.advance i phase with
    | none => none
    | some reads => some (s.setSession g { σ with reads := reads })

/-- What the user awaited has settled. -/
def leaveSettled (u : ℕ) : Option State :=
  match s.users[u]? with
  | some ⟨kind, .awaiting g t⟩ =>
    match s.sessions[g]? with
    | none => none
    | some σ => if σ.reads.settled t then some (s.leave u kind g) else none
  | _ => none

/-- A step of the closing. -/
def closing (failed : Bool) : Option State :=
  match s.authSessionClosing with
  | none => none
  | some c =>
    if c.settled ≠ none then none
    else
      match s.sessions[c.session]? with
      | none => none
      | some σ =>
        match σ.close failed with
        | none => none
        | some (σ', none) => some (s.setSession c.session σ')
        | some (σ', some closingFailed) => some ((s.setSession c.session σ').settle c closingFailed)

end State

/-! ## Steps -/

inductive Act
  | arrive (kind : UserKind)
  | resume
  | opening (session : ℕ) (phase : SessionPhase)
  | begin (user : ℕ)
  | queue (user : ℕ)
  | finish (user : ℕ)
  | read (session read : ℕ) (phase : Phase)
  | leave (user : ℕ)
  | closing (failed : Bool)
  deriving DecidableEq

/-- A step outside the reactions of a settled closing. -/
def State.quiet (s : State) (t : Option State) : Option State :=
  if s.reactions = [] then t else none

def step (s : State) : Act → Option State
  | .arrive kind => some (s.arrive kind)
  | .resume => s.resume
  | .opening g phase => s.quiet (s.opening g phase)
  | .begin u => s.quiet (s.begin u)
  | .queue u => s.quiet (s.queue u)
  | .finish u => s.quiet (s.finish u)
  | .read g i phase => s.quiet (s.read g i phase)
  | .leave u => s.quiet (s.leaveSettled u)
  | .closing failed => s.quiet (s.closing failed)

/-- Nobody waits for a closing when it fails, and nobody comes between its failure and the reaction of the
user who has begun it. -/
def Calm (s : State) : Act → Prop
  | .arrive _ => ∀ c, s.authSessionClosing = some c → c.settled ≠ some true
  | .closing failed => ∀ c σ σ', s.authSessionClosing = some c → s.sessions[c.session]? = some σ →
      σ.close failed = some (σ', some true) → c.waiters = []
  | _ => True

end AmoAnalytics.CrmControl.Session
