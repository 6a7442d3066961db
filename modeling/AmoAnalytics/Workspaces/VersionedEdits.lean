import AmoAnalytics.Lib.VersionedEdit

/-!
# The versioned editors

`workspaces.service.ts`, `performance.service.ts`: plans, goals, target profiles, Rivile mappings and
accounts are edited under the version that the form was loaded with. `savePlan` and `saveGoal` put the
version in the filter of the update, `salesTargetProfile` and `rivileMapping` run at SERIALIZABLE, and
`updateAccount` compares after its read alone.
-/

namespace AmoAnalytics.Workspaces

open VersionedEdit

/-! ## Plans and goals -/

/-- A row of `WorkspacePlan` or `WorkspaceKpiGoal`. -/
structure Target where
  id : String
  value : ℚ
  version : ℤ := 1
  deriving DecidableEq

/-- `old?.version || 0`. -/
def Target.versionOf (old : Option Target) : ℤ := (old.map (·.version)).getD 0

/-- A request: the number that `body.version` stands for, if it is an integer, and the id that a new row
would get. -/
structure TargetBody (κ : Type) where
  userId : String
  scope : κ
  value : ℚ
  version : Option ℤ
  newId : String

/-- `AuditLog` of a plan or a goal. -/
structure TargetAudit (κ : Type) where
  action : String
  entity : String
  userId : String
  entityId : String
  scope : κ
  before : Option ℚ
  after : ℚ

/-- Create the row, or update it where its id and version are those read. -/
def TargetBody.write {κ : Type} (body : TargetBody κ) (old row : Option Target) : Option Target :=
  match old with
  | some old => row.bind fun row =>
      if row.id = old.id ∧ row.version = old.version then
        some { row with value := body.value, version := row.version + 1 }
      else none
  | none => if row.isNone then some { id := body.newId, value := body.value } else none

/-- The transaction that `savePlan` and `saveGoal` share. -/
def saveTarget (κ : Type) (action entity : String) : Editor κ Target (TargetBody κ) ℤ (TargetAudit κ) where
  serializable := false
  key body := body.scope
  expected body := body.version
  version := Target.versionOf
  accepts body old := body.version = some (Target.versionOf old)
  write body old row _ := body.write old row
  audit body old new :=
    { action, entity, userId := body.userId, entityId := new.id, scope := body.scope
      before := old.map (·.value), after := new.value }

structure PlanKey where
  month : String
  departmentKey : String
  targetType : String
  targetId : String
  metric : String
  deriving DecidableEq

structure GoalKey where
  departmentKey : String
  period : String
  start : String
  targetType : String
  targetId : String
  metric : String
  deriving DecidableEq

/-- `savePlan`; `saveGoal` hands the monthly shipments over to it. -/
def savePlan : Editor PlanKey Target (TargetBody PlanKey) ℤ (TargetAudit PlanKey) :=
  saveTarget PlanKey "workspace.plan.updated" "WorkspacePlan"

def saveGoal : Editor GoalKey Target (TargetBody GoalKey) ℤ (TargetAudit GoalKey) :=
  saveTarget GoalKey "workspace.kpi-goal.updated" "WorkspaceKpiGoal"

/-! ## Target profiles -/

/-- `SalesTargetProfile`. -/
structure Profile where
  marginTarget : ℚ
  paidTarget : ℤ
  version : ℤ := 1
  deriving DecidableEq

structure ProfileBody where
  userId : String
  crmUserId : String
  marginTarget : ℚ
  paidTarget : ℤ
  version : Option ℤ

structure ProfileAudit where
  userId : String
  entityId : String
  before : Option Profile
  after : Profile

/-- `old?.version || 0`. -/
def Profile.versionOf (old : Option Profile) : ℤ := (old.map (·.version)).getD 0

/-- The upsert of `salesTargetProfile`. -/
def ProfileBody.write (body : ProfileBody) (row : Option Profile) : Profile :=
  row.elim { marginTarget := body.marginTarget, paidTarget := body.paidTarget } fun row =>
    { marginTarget := body.marginTarget, paidTarget := body.paidTarget, version := row.version + 1 }

def salesTargetProfile : Editor String Profile ProfileBody ℤ ProfileAudit where
  serializable := true
  key body := body.crmUserId
  expected body := body.version
  version := Profile.versionOf
  accepts body old := body.version = some (Profile.versionOf old)
  write body _ row _ := some (body.write row)
  audit body old new := { userId := body.userId, entityId := body.crmUserId, before := old, after := new }

/-! ## Rivile mappings -/

/-- `RivileManagerLink`; `updatedAt` in milliseconds. -/
structure Mapping where
  crmUserId : Option String
  departmentKey : Option String
  source : String
  updatedAt : ℤ
  deriving DecidableEq

/-- A request: `some none` is no version, `some (some t)` the ISO text of the time `t`, `none` any other
value. -/
structure MappingBody where
  userId : String
  code : String
  crmUserId : Option String
  departmentKey : String
  version : Option (Option ℤ)

structure MappingAudit where
  userId : String
  entityId : String
  before : Option Mapping
  after : Mapping

/-- `old?.updatedAt.toISOString() || ''`: the text determines the time and is never empty. -/
def Mapping.versionOf (old : Option Mapping) : Option ℤ := old.map (·.updatedAt)

/-- The row of the upsert of `rivileMapping`; the write sets `updatedAt`. -/
def MappingBody.write (body : MappingBody) (now : ℤ) : Mapping :=
  { crmUserId := body.crmUserId
    departmentKey := if body.departmentKey = "outside" then none else some body.departmentKey
    source := "OWNER_CONFIRMED_UI", updatedAt := now }

def rivileMapping : Editor String Mapping MappingBody (Option ℤ) MappingAudit where
  serializable := true
  key body := body.code
  expected body := body.version
  version := Mapping.versionOf
  accepts body old := body.version = some (Mapping.versionOf old)
  write body _ _ now := some (body.write now)
  audit body old new := { userId := body.userId, entityId := body.code, before := old, after := new }

/-! ## Accounts -/

/-- The columns of `User` that the edit reads or writes. -/
structure Account where
  businessRole : String
  role : String
  departmentKey : Option String
  crmUserId : Option String
  isActive : Bool
  accessVersion : ℤ
  passwordHash : String
  deriving DecidableEq

structure AccountBody where
  userId : String
  id : String
  businessRole : String
  departmentKey : String
  crmUserId : Option String
  isActive : Bool
  passwordHash : Option String
  version : Option ℤ

structure AccountAudit where
  userId : String
  entityId : String
  before : Option Account
  after : Account
  passwordChanged : Bool

def Account.versionOf (old : Option Account) : ℤ := (old.map (·.accessVersion)).getD 0

/-- The update of `updateAccount`. -/
def AccountBody.write (body : AccountBody) (row : Account) : Account :=
  { businessRole := body.businessRole
    role := if body.businessRole = "OWNER" then "ADMIN" else "ROP"
    departmentKey := if body.businessRole = "OWNER" then none else some body.departmentKey
    crmUserId := body.crmUserId, isActive := body.isActive
    accessVersion := row.accessVersion + 1
    passwordHash := body.passwordHash.getD row.passwordHash }

/-- The filter of the update is the id alone. -/
def updateAccount : Editor String Account AccountBody ℤ AccountAudit where
  serializable := false
  key body := body.id
  expected body := body.version
  version := Account.versionOf
  accepts body old := old.any fun old => body.version = some old.accessVersion
  write body _ row _ := row.map body.write
  audit body old new :=
    { userId := body.userId, entityId := body.id, before := old, after := new
      passwordChanged := body.passwordHash.isSome }

/-! ## What the editors owe -/

/-- No condition on the writes. -/
def Always {β ρ : Type} (_ : β) (_ _ : Option ρ) (_ : ℤ) : Prop := True

/-- The row that a plan or a goal is written to has the version that was read. -/
theorem TargetBody.write_eq_some {κ : Type} {body : TargetBody κ} {old row : Option Target} {new : Target}
    (h : body.write old row = some new) :
    Target.versionOf row = Target.versionOf old ∧ new.version = Target.versionOf row + 1 := by
  unfold TargetBody.write at h
  cases old with
  | none =>
    cases row with
    | none =>
      cases h
      exact ⟨rfl, rfl⟩
    | some row => exact nomatch h
  | some old =>
    obtain ⟨current, rfl, hwrite⟩ := Option.bind_eq_some_iff.1 h
    split_ifs at hwrite with hsame
    cases hwrite
    exact ⟨hsame.2, rfl⟩

theorem saveTarget_lawful (κ : Type) (action entity : String) :
    Lawful (saveTarget κ action entity) Always (fun version : ℤ => version) where
  check body old h := of_decide_eq_true h
  grows body old row now new _ _ _ h := by
    obtain ⟨hversion, hnew⟩ := TargetBody.write_eq_some h
    refine ⟨hversion, ?_⟩
    change Target.versionOf row < new.version
    omega

theorem ProfileBody.version_write (body : ProfileBody) (row : Option Profile) :
    (body.write row).version = Profile.versionOf row + 1 := by
  cases row <;> rfl

theorem salesTargetProfile_lawful : Lawful salesTargetProfile Always (fun version : ℤ => version) where
  check body old h := of_decide_eq_true h
  grows body old row now new _ hserial _ h := by
    cases h
    refine ⟨congrArg Profile.versionOf (hserial rfl), ?_⟩
    change Profile.versionOf row < (body.write row).version
    rw [body.version_write]
    omega

/-- The clock has moved past the mapping that is overwritten. -/
def ClockMoved (_ : MappingBody) (_ row : Option Mapping) (now : ℤ) : Prop :=
  ∀ mapping, row = some mapping → mapping.updatedAt < now

/-- The order of the versions: an absent mapping comes before every time. -/
def Mapping.rank (version : Option ℤ) : WithBot ℤ := version

theorem rivileMapping_lawful : Lawful rivileMapping ClockMoved Mapping.rank where
  check body old h := of_decide_eq_true h
  grows body old row now new hmoved hserial _ h := by
    cases h
    refine ⟨congrArg Mapping.versionOf (hserial rfl), ?_⟩
    cases row with
    | none => exact WithBot.bot_lt_coe now
    | some mapping => exact WithBot.coe_lt_coe.2 (hmoved mapping rfl)

/-- The account still has the version that was read. -/
def VersionKept (_ : AccountBody) (old row : Option Account) (_ : ℤ) : Prop :=
  Account.versionOf row = Account.versionOf old

theorem updateAccount_lawful : Lawful updateAccount VersionKept (fun version : ℤ => version) where
  check body old h := by
    obtain ⟨account, rfl, hversion⟩ := (Option.any_eq_true _ _).1 h
    exact of_decide_eq_true hversion
  grows body old row now new hkept _ _ h := by
    obtain ⟨account, rfl, rfl⟩ := Option.map_eq_some_iff.1 h
    refine ⟨hkept, ?_⟩
    change account.accessVersion < account.accessVersion + 1
    omega

/-- **Versioned edits.** In every run of the requests of each editor, from any rows, no two requests with one
expected version of a row are accepted, an accepted one changes the version, and the others leave the row and
the history: for mappings while each write comes after the time of the row that it replaces, and for
accounts while each write finds the version that its transaction has read. -/
theorem versioned_edits_safe (plans : PlanKey → Option Target) (goals : GoalKey → Option Target)
    (profiles : String → Option Profile) (mappings : String → Option Mapping) (accounts : String → Option Account) :
    SafeFrom plans savePlan Always ∧ SafeFrom goals saveGoal Always ∧ SafeFrom profiles salesTargetProfile Always ∧
      SafeFrom mappings rivileMapping ClockMoved ∧ SafeFrom accounts updateAccount VersionKept :=
  ⟨(saveTarget_lawful _ _ _).safeFrom plans, (saveTarget_lawful _ _ _).safeFrom goals,
    salesTargetProfile_lawful.safeFrom profiles, rivileMapping_lawful.safeFrom mappings,
    updateAccount_lawful.safeFrom accounts⟩

namespace Sample

def account : Account :=
  { businessRole := "MANAGER", role := "ROP", departmentKey := some "sales", crmUserId := some "7"
    isActive := true, accessVersion := 1, passwordHash := "hash" }

/-- Two administrators edit the account that both have loaded at version 1. -/
def accountBody (departmentKey : String) (isActive : Bool) : AccountBody :=
  { userId := "admin", id := "user", businessRole := "MANAGER", departmentKey, crmUserId := some "7"
    isActive, passwordHash := none, version := some 1 }

/-- Both read before the first one commits. -/
def twoAdmins : List (ℕ × Action AccountBody) :=
  [(0, .begin (accountBody "sales" false)), (1, .begin (accountBody "csm" true)), (0, .read), (1, .read),
    (0, .write 10), (0, .audit), (0, .commit), (1, .write 20), (1, .audit), (1, .commit)]

def mapping : Mapping :=
  { crmUserId := some "7", departmentKey := some "sales", source := "OWNER_CONFIRMED_UI", updatedAt := 50 }

def mappingBody (departmentKey : String) : MappingBody :=
  { userId := "admin", code := "A1", crmUserId := some "7", departmentKey, version := some (some 50) }

/-- The second edit commits in the millisecond of the first one. -/
def sameMillisecond : List (ℕ × Action MappingBody) :=
  [(0, .begin (mappingBody "csm")), (0, .read), (0, .write 50), (0, .audit), (0, .commit),
    (1, .begin (mappingBody "outside")), (1, .read), (1, .write 50), (1, .audit), (1, .commit)]

end Sample

/-- Two requests with one expected version are both accepted: of an account when both read before the first
commit, of a mapping when the clock has not moved since the stored version. -/
theorem versioned_edits_overwrite :
    (∃ w, Run.Reachable (World.step (act updateAccount)) (start (fun _ => some Sample.account) []) w ∧
      w.store.accepted = [Sample.accountBody "sales" false, Sample.accountBody "csm" true]) ∧
    ∃ w, Run.Reachable (World.step (act rivileMapping)) (start (fun _ => some Sample.mapping) []) w ∧
      w.store.accepted = [Sample.mappingBody "csm", Sample.mappingBody "outside"] ∧
      Mapping.versionOf (w.store.cells "A1").row = some 50 := by
  have haccount : Run.run (World.step (act updateAccount)) (start (fun _ => some Sample.account) [])
      Sample.twoAdmins = some _ := rfl
  have hmapping : Run.run (World.step (act rivileMapping)) (start (fun _ => some Sample.mapping) [])
      Sample.sameMillisecond = some _ := rfl
  exact ⟨⟨_, Run.reachable_of_run haccount, rfl⟩, _, Run.reachable_of_run hmapping, rfl, rfl⟩

end AmoAnalytics.Workspaces
