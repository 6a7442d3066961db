import AmoAnalytics.Lib.Run

/-!
# Telegram link codes

`linkByCode` and `linkGroupByCode` of the Telegram service, with the statements that issue and revoke codes. The
transactions are READ COMMITTED: a statement reads what is committed, a write locks its row or its unique key to the
end of the transaction, and a write to what is locked waits.
-/

namespace AmoAnalytics.Platform.TelegramLinks

/-! ## Rows -/

/-- A row of `TelegramLinkCode`. Its id is its place in the list of rows, and `code` is unique. -/
structure LinkCode where
  userId : Option String
  crmUserId : Option String
  code : String
  expiresAt : ℕ
  usedAt : Option ℕ := none
deriving DecidableEq

inductive ChatType
  | privateChat
  | group
  | supergroup
  | channel
deriving DecidableEq

/-- The chat of an update. -/
structure Chat where
  id : String
  type : Option ChatType
deriving DecidableEq

/-- `chat?.type && chat.type !== 'private'`. -/
def Chat.isGroup (chat : Chat) : Bool := chat.type.any (· ≠ .privateChat)

/-- A row of `TelegramAccount`, with the id of the code that it was linked through. -/
structure TelegramAccount where
  id : ℕ
  userId : Option String
  crmUserId : Option String
  chatId : String
  through : ℕ
deriving DecidableEq

/-- A row of `TelegramChat`, with the id of the code that it was linked through last. -/
structure TelegramChat where
  userId : String
  chatId : String
  type : Option ChatType
  through : ℕ
deriving DecidableEq

structure User where
  id : String
  crmUserId : Option String
  isActive : Bool
deriving DecidableEq

/-- The account that a code gives to a chat. -/
structure Link where
  userId : Option String
  crmUserId : Option String
  chatId : String
deriving DecidableEq

/-- `deleteMany`: the account is of the user, the amoCRM user or the chat of the link. The same three columns are
unique. -/
def Link.meets (link : Link) (userId crmUserId : Option String) (chatId : String) : Bool :=
  (link.userId.isSome && link.userId = userId) || (link.crmUserId.isSome && link.crmUserId = crmUserId) ||
    link.chatId = chatId

def Link.meetsAccount (link : Link) (account : TelegramAccount) : Bool :=
  link.meets account.userId account.crmUserId account.chatId

/-! ## Calls -/

/-- Where the processing of an update stands. What its transaction has written and not committed yet is in the
phase: the accounts that are deleted, the account that is created, the chat that is written. -/
inductive LinkCall
  | received (code : String) (chat : Chat)
  | found (id : ℕ) (row : LinkCode) (crmUserId : Option String) (chat : Chat)
  | resolved (id : ℕ) (link : Link)
  | cleared (id : ℕ) (link : Link) (deleted : List ℕ)
  | created (id : ℕ) (link : Link) (deleted : List ℕ)
  | marked (id : ℕ) (link : Link) (deleted : List ℕ) (usedAt : ℕ)
  | joining (id : ℕ) (userId : String) (chat : Chat)
  | upserted (id : ℕ) (userId : String) (chat : Chat)
  | joined (id : ℕ) (userId : String) (chat : Chat) (usedAt : ℕ)
  | done
deriving DecidableEq

/-- The code that the update has been let in with and has not been done with. -/
def LinkCall.pending : LinkCall → Option ℕ
  | .found id .. | .resolved id _ | .cleared id .. | .created id .. | .marked id .. | .joining id .. | .upserted id ..
  | .joined id .. => some id
  | .received .. | .done => none

/-- The transaction has deleted the account. -/
def LinkCall.locksAccount (account : TelegramAccount) : LinkCall → Bool
  | .cleared _ _ deleted | .created _ _ deleted | .marked _ _ deleted _ => account.id ∈ deleted
  | _ => false

/-- The transaction has created an account with a unique value of the link. -/
def LinkCall.locksLink (link : Link) : LinkCall → Bool
  | .created _ other _ | .marked _ other _ _ => link.meets other.userId other.crmUserId other.chatId
  | _ => false

/-- The transaction has written the chat. -/
def LinkCall.locksChat (chatId : String) : LinkCall → Bool
  | .upserted _ _ chat | .joined _ _ chat _ => chat.id = chatId
  | _ => false

/-- The transaction has marked the code as used. -/
def LinkCall.locksCode (id : ℕ) : LinkCall → Bool
  | .marked other .. | .joined other .. => other = id
  | _ => false

/-- A commit: the code, its committed row before it, the chat that is linked and the time. -/
structure Linked where
  id : ℕ
  row : LinkCode
  chatId : String
  time : ℕ
deriving DecidableEq

/-- The committed rows, the calls and the commits, the latest first. `drawn` numbers the accounts. -/
structure LinkDb where
  users : List User
  codes : List LinkCode := []
  accounts : List TelegramAccount := []
  chats : List TelegramChat := []
  now : ℕ := 0
  drawn : ℕ := 0
  calls : List LinkCall := []
  history : List Linked := []
deriving DecidableEq

/-- The code is of the user or of the amoCRM user. -/
inductive Owner
  | user (id : String)
  | crmUser (id : String)
deriving DecidableEq

def Owner.owns (owner : Owner) (row : LinkCode) : Bool :=
  match owner with
  | .user id => row.userId = some id
  | .crmUser id => row.crmUserId = some id

/-- Half an hour. -/
def linkCodeMs : ℕ := 30 * 60_000

inductive Move
  | lookup
  | resolve
  | clear
  | create
  | upsert
  | mark
  | commit
  | abort
deriving DecidableEq

variable (db : LinkDb)

/-- `usedAt: null, expiresAt: { gt: new Date() }`. -/
def LinkCode.usable (now : ℕ) (row : LinkCode) : Bool := row.usedAt.isNone && decide (now < row.expiresAt)

/-- `findFirst` by the code. -/
def LinkDb.findCode (code : String) : Option (ℕ × LinkCode) :=
  (db.codes.findIdx? fun row => row.code = code && row.usable db.now).bind fun id =>
    db.codes[id]?.map fun row => (id, row)

/-- `linkedUserId`. -/
def LinkDb.linkedUserId (row : LinkCode) (crmUserId : Option String) : Option String :=
  match row.userId with
  | some userId => some userId
  | none =>
    if crmUserId.isSome then
      match db.users.filter fun user => user.crmUserId = crmUserId && user.isActive with
      | [user] => some user.id
      | _ => none
    else none

/-- The phase after the check of the code. -/
def LinkDb.accept (chat : Chat) (id : ℕ) (row : LinkCode) : LinkCall :=
  let user := row.userId.bind fun userId => db.users.find? (·.id = userId)
  if chat.isGroup then
    match user with
    | some user => .joining id user.id chat
    | none => .done
  else .found id row (row.crmUserId.or (user.bind User.crmUserId)) chat

/-- The row of the account that a call creates. -/
def LinkDb.account (id : ℕ) (link : Link) : TelegramAccount :=
  ⟨db.drawn, link.userId, link.crmUserId, link.chatId, id⟩

/-- `upsert` by the chat. -/
def upsertChat (chats : List TelegramChat) (row : TelegramChat) : List TelegramChat :=
  if chats.any (·.chatId = row.chatId) then chats.map fun chat => if chat.chatId = row.chatId then row else chat
  else chats ++ [row]

/-- The code is marked as used. -/
def markUsed (codes : List LinkCode) (id usedAt : ℕ) : List LinkCode :=
  codes.modify id fun row => { row with usedAt := some usedAt }

/-- The committed rows and the call after a move; a call that fails is done. -/
def LinkDb.move : Move → LinkCall → Option (LinkDb × LinkCall)
  | .lookup, .received code chat =>
    some (db, match db.findCode code with
      | some (id, row) => db.accept chat id row
      | none => .done)
  | .resolve, .found id row crmUserId chat =>
    some (db, .resolved id ⟨db.linkedUserId row crmUserId, crmUserId, chat.id⟩)
  | .clear, .resolved id link =>
    let accounts := db.accounts.filter link.meetsAccount
    if accounts.any fun account => db.calls.any (·.locksAccount account) then none
    else some (db, .cleared id link (accounts.map TelegramAccount.id))
  | .create, .cleared id link deleted =>
    -- Rows that the transaction itself has deleted are no conflict; those of others are waited for.
    let others := db.accounts.filter fun account => link.meetsAccount account && account.id ∉ deleted
    if db.calls.any (·.locksLink link) || others.any fun account => db.calls.any (·.locksAccount account) then none
    else some (db, if others.isEmpty then .created id link deleted else .done)
  | .mark, .created id link deleted =>
    if db.calls.any (·.locksCode id) then none else some (db, .marked id link deleted db.now)
  | .commit, .marked id link deleted usedAt =>
    db.codes[id]?.map fun row => ({ db with
      accounts := db.accounts.filter (·.id ∉ deleted) ++ [db.account id link]
      drawn := db.drawn + 1
      codes := markUsed db.codes id usedAt
      history := ⟨id, row, link.chatId, db.now⟩ :: db.history }, .done)
  | .upsert, .joining id userId chat =>
    if db.calls.any (·.locksChat chat.id) then none else some (db, .upserted id userId chat)
  | .mark, .upserted id userId chat =>
    if db.calls.any (·.locksCode id) then none else some (db, .joined id userId chat db.now)
  | .commit, .joined id userId chat usedAt =>
    db.codes[id]?.map fun row => ({ db with
      chats := upsertChat db.chats ⟨userId, chat.id, chat.type, id⟩
      codes := markUsed db.codes id usedAt
      history := ⟨id, row, chat.id, db.now⟩ :: db.history }, .done)
  | .abort, _ => some (db, .done)
  | _, _ => none

/-! ## Histories -/

inductive LinkAction
  | tick (elapsed : ℕ)
  | update (code : String) (chat : Chat)
  | revoke (owner : Owner)
  | issue (owner : Owner) (code : String)
  | disconnect (crmUserId : String)
  | act (i : ℕ) (move : Move)
deriving DecidableEq

/-- `updateMany` of the codes of an owner that are not used. -/
def revokeCodes (codes : List LinkCode) (owner : Owner) (now : ℕ) : List LinkCode :=
  codes.map fun row => if owner.owns row && row.usedAt.isNone then { row with usedAt := some now } else row

/-- An open transaction has marked a code of the owner. -/
def LinkDb.ownerLocked (owner : Owner) : Bool :=
  db.codes.zipIdx.any fun (row, id) => owner.owns row && db.calls.any (·.locksCode id)

def Owner.code (owner : Owner) (code : String) (expiresAt : ℕ) : LinkCode :=
  match owner with
  | .user id => { userId := some id, crmUserId := none, code, expiresAt }
  | .crmUser id => { userId := none, crmUserId := some id, code, expiresAt }

/-- Time passes, codes are issued and revoked, updates come in, and each call moves. -/
def linkStep (db : LinkDb) : LinkAction → Option LinkDb
  | .tick elapsed => some { db with now := db.now + elapsed }
  | .update code chat => some { db with calls := db.calls ++ [.received code chat] }
  -- The two statements of `createLinkCode` and `createCrmUserLinkCode`.
  | .revoke owner =>
    if db.ownerLocked owner then none else some { db with codes := revokeCodes db.codes owner db.now }
  | .issue owner code =>
    if db.codes.any (·.code = code) then none
    else some { db with codes := db.codes ++ [owner.code code (db.now + linkCodeMs)] }
  -- `disconnectCrmTelegram`
  | .disconnect crmUserId =>
    if db.ownerLocked (.crmUser crmUserId) ||
        db.accounts.any fun account =>
          account.crmUserId = some crmUserId && db.calls.any (·.locksAccount account) then none
    else some { db with
      accounts := db.accounts.filter (·.crmUserId ≠ some crmUserId)
      codes := revokeCodes db.codes (.crmUser crmUserId) db.now }
  | .act i move => db.calls[i]?.bind fun call => (db.move move call).map fun next =>
      { next.1 with calls := db.calls.set i next.2 }

/-- The chats that are linked through a code. -/
def linkedChats (id : ℕ) : List String :=
  (db.accounts.filter (·.through = id)).map TelegramAccount.chatId ++
    (db.chats.filter (·.through = id)).map TelegramChat.chatId

end AmoAnalytics.Platform.TelegramLinks
