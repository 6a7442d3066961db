import AmoAnalytics.Lib.Run

/-!
# Invitations

`invite` and `accept` of the onboarding, and `updateAccount`, on one account. The transactions are READ COMMITTED:
a statement reads what is committed, an update locks its row to the end of the transaction, and the update of a
locked row waits.
-/

namespace AmoAnalytics.Onboarding

/-! ## Rows -/

inductive BusinessRole
  | owner
  | rop
  | manager
  deriving DecidableEq

/-- The columns of `User` that matter. -/
structure User where
  businessRole : BusinessRole
  isActive : Bool
  accessVersion : ℕ
  passwordHash : String
  deriving DecidableEq

/-- The row of `WorkspaceInvite`. A token stands for its hash. -/
structure Invite where
  tokenHash : ℕ
  expiresAt : ℕ
  accessVersion : ℕ
  usedAt : Option ℕ := none
  deriving DecidableEq

/-- The row as it was issued. -/
def Invite.issue (invite : Invite) : Invite := { invite with usedAt := none }

/-- The body of `updateAccount`. -/
structure AccountChange where
  businessRole : BusinessRole
  isActive : Bool
  version : ℕ
  passwordHash : Option String
  deriving DecidableEq

def AccountChange.apply (change : AccountChange) (user : User) : User where
  businessRole := change.businessRole
  isActive := change.isActive
  accessVersion := user.accessVersion + 1
  passwordHash := change.passwordHash.getD user.passwordHash

/-- The row that `accept` writes. -/
def User.activate (passwordHash : String) (user : User) : User :=
  { user with passwordHash, isActive := true, accessVersion := user.accessVersion + 1 }

/-- 72 hours. -/
def inviteMs : ℕ := 72 * 3600000

/-! ## Calls -/

/-- Where a call of `invite`, `accept` or `updateAccount` stands. What a transaction has written and not committed
yet is in the phase. -/
inductive OnboardingCall
  | inviting (invite : Invite)
  | admitted (invite : Invite)
  | reissued (invite : Invite)
  | accepting (tokenHash : ℕ) (passwordHash : String)
  | hashed (tokenHash : ℕ) (passwordHash : String)
  | reading (passwordHash : String) (invite : Invite)
  | joined (passwordHash : String) (invite : Invite) (user : User)
  | validated (passwordHash : String) (invite : Invite)
  | consumed (passwordHash : String) (invite row : Invite)
  | activated (passwordHash : String) (invite row : Invite) (user : User)
  | changing (change : AccountChange)
  | permitted (change : AccountChange)
  | changed (change : AccountChange) (user : User)
  | done
  deriving DecidableEq

/-- The transaction has written the invitation. -/
def OnboardingCall.locksInvite : OnboardingCall → Bool
  | .reissued _ | .consumed .. | .activated .. => true
  | _ => false

/-- The transaction has written the account. -/
def OnboardingCall.locksUser : OnboardingCall → Bool
  | .activated .. | .changed .. => true
  | _ => false

/-- The commits, the latest first. -/
inductive Event
  | invited (invite : Invite)
  | accepted (tokenHash : ℕ) (passwordHash : String)
  | changed (switchedOn : Bool) (passwordHash : Option String)
  deriving DecidableEq

/-- The account and its invitation, as they are committed; `prepared` when the audit log says so. Tokens are numbered
as they are drawn. -/
structure OnboardingDb where
  user : User
  prepared : Bool
  invite : Option Invite := none
  now : ℕ := 0
  drawn : ℕ := 0
  calls : List OnboardingCall := []
  history : List Event := []
  deriving DecidableEq

inductive Move
  | authorize
  | upsert
  | check
  | lookup
  | join
  | validate (eligible : Bool)
  | consume
  | activate
  | permit
  | write
  | commit
  | abort
  deriving DecidableEq

variable (db : OnboardingDb)

def OnboardingDb.inviteLocked : Bool := db.calls.any OnboardingCall.locksInvite

def OnboardingDb.userLocked : Bool := db.calls.any OnboardingCall.locksUser

/-- `findUnique` by the hash of the token. -/
def OnboardingDb.findInvite (tokenHash : ℕ) : Option Invite :=
  db.invite.filter fun row => row.tokenHash = tokenHash

/-- The committed rows, the commit and the phase after a move; a call that fails is done. The person and the
department of the account are `eligible` or not. -/
def OnboardingDb.move : Move → OnboardingCall → Option (User × Option Invite × List Event × OnboardingCall)
  -- `invite`
  | .authorize, .inviting invite => some (db.user, db.invite, [],
      if db.user.businessRole = .manager ∧ db.user.isActive = false ∧ db.prepared = true then
        .admitted { invite with accessVersion := db.user.accessVersion }
      else .done)
  | .upsert, .admitted invite =>
    if db.inviteLocked then none else some (db.user, db.invite, [], .reissued invite)
  -- `accept`
  | .check, .accepting tokenHash passwordHash => some (db.user, db.invite, [],
      if (db.findInvite tokenHash).any fun row => row.usedAt = none ∧ db.now < row.expiresAt then
        .hashed tokenHash passwordHash
      else .done)
  | .lookup, .hashed tokenHash passwordHash => some (db.user, db.invite, [],
      match db.findInvite tokenHash with
      | some row => .reading passwordHash row
      | none => .done)
  | .join, .reading passwordHash invite => some (db.user, db.invite, [], .joined passwordHash invite db.user)
  | .validate eligible, .joined passwordHash invite user => some (db.user, db.invite, [],
      if invite.usedAt = none ∧ db.now ≤ invite.expiresAt ∧ user.isActive = false ∧
          user.businessRole = .manager ∧ invite.accessVersion = user.accessVersion ∧ eligible = true then
        .validated passwordHash invite
      else .done)
  -- The condition is on the row, not on the token.
  | .consume, .validated passwordHash invite =>
    if db.inviteLocked then none else some (db.user, db.invite, [],
      match db.invite.filter fun row => row.usedAt = none with
      | some row => .consumed passwordHash invite { row with usedAt := some db.now }
      | none => .done)
  | .activate, .consumed passwordHash invite row =>
    if db.userLocked then none else some (db.user, db.invite, [],
      if db.user.isActive = false ∧ db.user.accessVersion = invite.accessVersion then
        .activated passwordHash invite row (db.user.activate passwordHash)
      else .done)
  -- `updateAccount`
  | .permit, .changing change => some (db.user, db.invite, [],
      if db.user.accessVersion = change.version then .permitted change else .done)
  | .write, .permitted change =>
    if db.userLocked then none else some (db.user, db.invite, [], .changed change (change.apply db.user))
  | .commit, .reissued invite => some (db.user, some invite, [.invited invite], .done)
  | .commit, .activated passwordHash invite row user =>
    some (user, some row, [.accepted invite.tokenHash passwordHash], .done)
  | .commit, .changed change user =>
    some (user, db.invite, [.changed (!db.user.isActive && user.isActive) change.passwordHash], .done)
  | .abort, _ => some (db.user, db.invite, [], .done)
  | _, _ => none

/-! ## Histories -/

inductive OnboardingAction
  | tick (elapsed : ℕ)
  | invite
  | accept (tokenHash : ℕ) (passwordHash : String)
  | updateAccount (change : AccountChange)
  | act (i : ℕ) (move : Move)
  deriving DecidableEq

/-- Time passes, calls begin, and each call moves. -/
def onboardingStep (db : OnboardingDb) : OnboardingAction → Option OnboardingDb
  | .tick elapsed => some { db with now := db.now + elapsed }
  | .invite => some { db with
      drawn := db.drawn + 1
      calls := db.calls ++ [.inviting { tokenHash := db.drawn, expiresAt := db.now + inviteMs, accessVersion := 0 }] }
  | .accept tokenHash passwordHash => some { db with calls := db.calls ++ [.accepting tokenHash passwordHash] }
  | .updateAccount change => some { db with calls := db.calls ++ [.changing change] }
  | .act i move => db.calls[i]?.bind fun call => (db.move move call).map fun next => { db with
      user := next.1, invite := next.2.1, history := next.2.2.1 ++ db.history, calls := db.calls.set i next.2.2.2 }

end AmoAnalytics.Onboarding
