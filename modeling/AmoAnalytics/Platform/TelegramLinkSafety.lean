import AmoAnalytics.Lib.Actors
import AmoAnalytics.Platform.TelegramLinks

/-!
# The safety of link codes

A code links one chat, and only while it is neither used nor expired, in every run in which a code stays usable as
long as an update that was let in with it is not done. The check of a code and its use are different statements, and
the mark on a used code has no condition: without that a code links two chats.
-/

namespace AmoAnalytics.Platform.TelegramLinks

open Actors

variable {db db' : LinkDb} {call other : LinkCall} {move : Move} {next : LinkDb × LinkCall} {id i j : ℕ}
  {row : LinkCode} {users : List User}

/-! ## Moves -/

/-- The commit of a private chat. -/
def LinkDb.linkAccount (db : LinkDb) (id : ℕ) (link : Link) (deleted : List ℕ) (usedAt : ℕ)
    (row : LinkCode) : LinkDb :=
  { db with
    accounts := db.accounts.filter (·.id ∉ deleted) ++ [db.account id link]
    drawn := db.drawn + 1
    codes := markUsed db.codes id usedAt
    history := ⟨id, row, link.chatId, db.now⟩ :: db.history }

/-- The commit of a group. -/
def LinkDb.linkChat (db : LinkDb) (id : ℕ) (userId : String) (chat : Chat) (usedAt : ℕ) (row : LinkCode) : LinkDb :=
  { db with
    chats := upsertChat db.chats ⟨userId, chat.id, chat.type, id⟩
    codes := markUsed db.codes id usedAt
    history := ⟨id, row, chat.id, db.now⟩ :: db.history }

/-- What a move does: it lets an update in with a usable code, commits, or writes nothing that others see. -/
inductive MoveEffect (db : LinkDb) : Move → LinkCall → LinkDb × LinkCall → Prop
  | keep (move : Move) {call next : LinkCall} (h : next.pending = none ∨ next.pending = call.pending) :
    MoveEffect db move call (db, next)
  | accept (call : LinkCall) {next : LinkCall} {id : ℕ} {row : LinkCode} (hrow : db.codes[id]? = some row)
    (husable : row.usable db.now = true) (hnext : next.pending = none ∨ next.pending = some id) :
    MoveEffect db .lookup call (db, next)
  | linkAccount (id : ℕ) (link : Link) (deleted : List ℕ) (usedAt : ℕ) {row : LinkCode}
    (hrow : db.codes[id]? = some row) :
    MoveEffect db .commit (.marked id link deleted usedAt) (db.linkAccount id link deleted usedAt row, .done)
  | linkChat (id : ℕ) (userId : String) (chat : Chat) (usedAt : ℕ) {row : LinkCode}
    (hrow : db.codes[id]? = some row) :
    MoveEffect db .commit (.joined id userId chat usedAt) (db.linkChat id userId chat usedAt row, .done)

theorem findCode_usable {code : String} (h : db.findCode code = some (id, row)) :
    db.codes[id]? = some row ∧ row.usable db.now = true := by
  obtain ⟨index, hindex, hmap⟩ := Option.bind_eq_some_iff.1 h
  obtain ⟨found, hfound, heq⟩ := Option.map_eq_some_iff.1 hmap
  obtain ⟨rfl, rfl⟩ := Prod.mk.inj heq
  refine ⟨hfound, ?_⟩
  obtain ⟨hlt, hchecked, -⟩ := List.findIdx?_eq_some_iff_getElem.1 hindex
  obtain ⟨hlt', hget⟩ := List.getElem?_eq_some_iff.1 hfound
  rw [hget] at hchecked
  exact (Bool.and_eq_true _ _ ▸ hchecked).2

theorem accept_pending (db : LinkDb) (chat : Chat) (id : ℕ) (row : LinkCode) :
    (db.accept chat id row).pending = none ∨ (db.accept chat id row).pending = some id := by
  unfold LinkDb.accept
  dsimp only
  split_ifs
  · cases row.userId.bind fun userId => db.users.find? (·.id = userId) with
    | none => exact .inl rfl
    | some user => exact .inr rfl
  · exact .inr rfl

theorem moveEffect (h : db.move move call = some next) : MoveEffect db move call next := by
  unfold LinkDb.move at h
  split at h
  case h_1 code chat =>
    obtain rfl := Option.some.inj h
    cases hfind : db.findCode code with
    | none => exact .keep _ (.inl rfl)
    | some found =>
      obtain ⟨id, row⟩ := found
      obtain ⟨hrow, husable⟩ := findCode_usable hfind
      exact .accept _ hrow husable (accept_pending db chat id row)
  case h_2 =>
    obtain rfl := Option.some.inj h
    exact .keep _ (.inr rfl)
  case h_3 =>
    dsimp only at h
    split_ifs at h
    obtain rfl := Option.some.inj h
    exact .keep _ (.inr rfl)
  case h_4 =>
    dsimp only at h
    split_ifs at h
    · obtain rfl := Option.some.inj h
      exact .keep _ (.inr rfl)
    · obtain rfl := Option.some.inj h
      exact .keep _ (.inl rfl)
  case h_5 =>
    split_ifs at h
    obtain rfl := Option.some.inj h
    exact .keep _ (.inr rfl)
  case h_6 id link deleted usedAt =>
    obtain ⟨row, hrow, rfl⟩ := Option.map_eq_some_iff.1 h
    exact .linkAccount id link deleted usedAt hrow
  case h_7 =>
    split_ifs at h
    obtain rfl := Option.some.inj h
    exact .keep _ (.inr rfl)
  case h_8 =>
    split_ifs at h
    obtain rfl := Option.some.inj h
    exact .keep _ (.inr rfl)
  case h_9 id userId chat usedAt =>
    obtain ⟨row, hrow, rfl⟩ := Option.map_eq_some_iff.1 h
    exact .linkChat id userId chat usedAt hrow
  case h_10 =>
    obtain rfl := Option.some.inj h
    exact .keep _ (.inl rfl)
  case h_11 => exact nomatch h

/-! ## Codes and the chats they link -/

/-- The code is marked as used. -/
def LinkDb.used (db : LinkDb) (id : ℕ) : Bool := db.codes[id]?.any (·.usedAt.isSome)

/-- How many chats may be linked through a code. -/
def LinkDb.room (db : LinkDb) (id : ℕ) : ℕ := if db.used id then 1 else 0

theorem room_le_one (db : LinkDb) (id : ℕ) : db.room id ≤ 1 := by
  unfold LinkDb.room
  split_ifs <;> omega

theorem room_mono (h : db.used id = true → db'.used id = true) : db.room id ≤ db'.room id := by
  unfold LinkDb.room
  by_cases hused : db.used id = true
  · rw [if_pos hused, if_pos (h hused)]
  · rw [if_neg hused]
    exact Nat.zero_le _

theorem room_usable (hrow : db.codes[id]? = some row) (husable : row.usable db.now = true) : db.room id = 0 := by
  have hunused : row.usedAt = none := Option.isNone_iff_eq_none.1 (Bool.and_eq_true _ _ ▸ husable).1
  unfold LinkDb.room LinkDb.used
  rw [hrow, Option.any_some, hunused, if_neg nofun]

theorem markUsed_getElem? (codes : List LinkCode) (id usedAt : ℕ) (j : ℕ) :
    (markUsed codes id usedAt)[j]? = (codes[j]?).map fun row =>
      if id = j then { row with usedAt := some usedAt } else row := by
  unfold markUsed
  rw [List.getElem?_modify]
  by_cases hj : id = j
  · simp [hj]
  · simp [hj]

theorem revokeCodes_getElem? (codes : List LinkCode) (owner : Owner) (now j : ℕ) :
    (revokeCodes codes owner now)[j]? = (codes[j]?).map fun row =>
      if owner.owns row && row.usedAt.isNone then { row with usedAt := some now } else row :=
  List.getElem?_map ..

theorem used_markUsed (id usedAt : ℕ) (hdb : db'.codes = markUsed db.codes id usedAt)
    (hrow : db.codes[id]? = some row) (j : ℕ) : db'.used j = (db.used j || decide (j = id)) := by
  unfold LinkDb.used
  rw [hdb, markUsed_getElem?, Option.any_map]
  by_cases hj : j = id
  · subst hj
    simp [hrow]
  · simp [Ne.symm hj, hj]

theorem linkedChats_upsert_self {chats : List TelegramChat} (row : TelegramChat)
    (hunique : (chats.map TelegramChat.chatId).Nodup) (hnone : ∀ chat ∈ chats, chat.through ≠ row.through) :
    ((upsertChat chats row).filter (·.through = row.through)).length = 1 := by
  unfold upsertChat
  split_ifs with hany
  · rw [← List.countP_eq_length_filter, List.countP_map]
    have hcount : chats.countP ((fun chat => decide (chat.through = row.through)) ∘
        fun chat => if chat.chatId = row.chatId then row else chat) =
          (chats.map TelegramChat.chatId).count row.chatId := by
      rw [List.count, List.countP_map]
      refine List.countP_congr fun chat hchat => ?_
      by_cases hid : chat.chatId = row.chatId
      · simp [hid]
      · simp [hid, hnone chat hchat]
    rw [hcount]
    obtain ⟨chat, hchat, hid⟩ := List.any_eq_true.1 hany
    exact List.count_eq_one_of_mem hunique (List.mem_map.2 ⟨chat, hchat, of_decide_eq_true hid⟩)
  · have hold : chats.filter (·.through = row.through) = [] :=
      List.filter_eq_nil_iff.2 fun chat hchat => by simp [hnone chat hchat]
    rw [List.filter_append, hold]
    simp

theorem linkedChats_upsert_other {chats : List TelegramChat} {row : TelegramChat} (hother : id ≠ row.through) :
    ((upsertChat chats row).filter (·.through = id)).length ≤ (chats.filter (·.through = id)).length := by
  unfold upsertChat
  split_ifs
  · rw [← List.countP_eq_length_filter, ← List.countP_eq_length_filter, List.countP_map]
    refine List.countP_mono_left fun chat _ hchat => ?_
    by_cases hid : chat.chatId = row.chatId
    · simp [hid, hother.symm] at hchat
    · simpa [hid] using hchat
  · rw [List.filter_append]
    simp [hother.symm]

theorem upsertChat_unique {chats : List TelegramChat} {row : TelegramChat}
    (hunique : (chats.map TelegramChat.chatId).Nodup) :
    ((upsertChat chats row).map TelegramChat.chatId).Nodup := by
  unfold upsertChat
  split_ifs with hany
  · have hids : (chats.map fun chat => if chat.chatId = row.chatId then row else chat).map TelegramChat.chatId =
        chats.map TelegramChat.chatId := by
      rw [List.map_map]
      refine List.map_congr_left fun chat _ => ?_
      by_cases hid : chat.chatId = row.chatId
      · rw [Function.comp_apply, if_pos hid, hid]
      · rw [Function.comp_apply, if_neg hid]
    rw [hids]
    exact hunique
  · rw [List.map_append, List.map_singleton]
    refine List.nodup_append.2 ⟨hunique, List.nodup_singleton _, ?_⟩
    rintro chatId hmem _ hnew rfl
    obtain ⟨chat, hchat, rfl⟩ := List.mem_map.1 hmem
    exact hany (List.any_eq_true.2 ⟨chat, hchat, decide_eq_true (List.mem_singleton.1 hnew)⟩)

/-! ## The condition -/

/-- A code that an update was let in with stays usable until the update is done: it does not expire, is not revoked,
and no other update uses it. -/
def StaysUsable (db : LinkDb) : LinkAction → Prop
  | .tick elapsed => ∀ call ∈ db.calls, ∀ id row, call.pending = some id → db.codes[id]? = some row →
    db.now + elapsed < row.expiresAt
  | .revoke owner => ∀ call ∈ db.calls, ∀ id row, call.pending = some id → db.codes[id]? = some row →
    owner.owns row = false
  | .disconnect crmUserId => ∀ call ∈ db.calls, ∀ id row, call.pending = some id → db.codes[id]? = some row →
    (Owner.crmUser crmUserId).owns row = false
  | .act i .commit => ∀ j call other id, j ≠ i → db.calls[i]? = some call → db.calls[j]? = some other →
    call.pending = some id → other.pending ≠ some id
  | _ => True

/-! ## The invariant -/

structure LinkInv (db : LinkDb) : Prop where
  pending : ∀ call ∈ db.calls, ∀ id, call.pending = some id →
    ∃ row, db.codes[id]? = some row ∧ row.usable db.now = true
  linked : ∀ id, (linkedChats db id).length ≤ db.room id
  chats : (db.chats.map TelegramChat.chatId).Nodup
  history : ∀ linked ∈ db.history, linked.row.usable linked.time = true

theorem linkedChats_length (db : LinkDb) (id : ℕ) : (linkedChats db id).length =
    (db.accounts.filter (·.through = id)).length + (db.chats.filter (·.through = id)).length := by
  unfold linkedChats
  rw [List.length_append, List.length_map, List.length_map]

theorem LinkInv.start (users : List User) : LinkInv { users } :=
  ⟨fun _ h => absurd h List.not_mem_nil, fun _ => Nat.zero_le _, List.nodup_nil, fun _ h => absurd h List.not_mem_nil⟩

/-- The pending calls of a list with another call in one place. -/
theorem LinkInv.pending_set (h : LinkInv db) {next : LinkCall} (hnext : ∀ id, next.pending = some id →
    ∃ row, db.codes[id]? = some row ∧ row.usable db.now = true) :
    ∀ call ∈ db.calls.set i next, ∀ id, call.pending = some id →
      ∃ row, db.codes[id]? = some row ∧ row.usable db.now = true :=
  forall_mem_set hnext fun _ _ _ hj => h.pending _ (List.mem_of_getElem? hj)

/-- A commit: the code was usable, no other call is let in with it, and it has linked nothing yet. -/
theorem LinkInv.commit (h : LinkInv db) (hi : db.calls[i]? = some call) (hpending : call.pending = some id)
    (hrow : db.codes[id]? = some row) (halone : StaysUsable db (.act i .commit)) {usedAt : ℕ}
    (hcodes : db'.codes = markUsed db.codes id usedAt) (hnow : db'.now = db.now)
    (hcalls : db'.calls = db.calls.set i .done) {chatId : String}
    (hhistory : db'.history = ⟨id, row, chatId, db.now⟩ :: db.history)
    (hlinked : (linkedChats db id).length = 0 → (linkedChats db' id).length ≤ 1)
    (hothers : ∀ j, j ≠ id → (linkedChats db' j).length ≤ (linkedChats db j).length)
    (hchats : (db'.chats.map TelegramChat.chatId).Nodup) : LinkInv db' := by
  obtain ⟨found, hfound, husable⟩ := h.pending call (List.mem_of_getElem? hi) id hpending
  obtain rfl : row = found := Option.some.inj (hrow.symm.trans hfound)
  have hused := used_markUsed id usedAt hcodes hrow
  refine ⟨?_, fun j => ?_, hchats, fun linked hmem => ?_⟩
  · rw [hcalls, hnow, hcodes]
    refine forall_mem_set (fun _ hdone => nomatch hdone) fun k other hk hother j hj => ?_
    have hne : j ≠ id := fun heq => halone k call other id hk hi hother hpending (heq ▸ hj)
    obtain ⟨otherRow, hotherRow, hotherUsable⟩ := h.pending other (List.mem_of_getElem? hother) j hj
    refine ⟨otherRow, ?_, hotherUsable⟩
    rw [markUsed_getElem?, hotherRow, Option.map_some, if_neg hne.symm]
  · by_cases hj : j = id
    · subst hj
      have hroom : db'.room j = 1 := by
        unfold LinkDb.room
        rw [hused, decide_eq_true rfl, Bool.or_true, if_pos rfl]
      rw [hroom]
      exact hlinked (Nat.le_zero.1 ((h.linked j).trans_eq (room_usable hrow husable)))
    · refine (hothers j hj).trans ((h.linked j).trans (room_mono fun hwas => ?_))
      rw [hused, hwas, Bool.true_or]
  · rw [hhistory] at hmem
    rcases List.mem_cons.1 hmem with rfl | hold
    · exact husable
    · exact h.history linked hold

/-- A move keeps the invariant. -/
theorem LinkInv.act (h : LinkInv db) (hi : db.calls[i]? = some call) (heffect : MoveEffect db move call next)
    (hmove : StaysUsable db (.act i move)) : LinkInv { next.1 with calls := db.calls.set i next.2 } := by
  cases heffect with
  | keep _ hnext =>
    refine ⟨h.pending_set fun id hid => ?_, h.linked, h.chats, h.history⟩
    rcases hnext with hnone | hsame
    · rw [hnone] at hid
      cases hid
    · exact h.pending call (List.mem_of_getElem? hi) id (hsame ▸ hid)
  | accept _ hrow husable hnext =>
    refine ⟨h.pending_set fun id hid => ?_, h.linked, h.chats, h.history⟩
    rcases hnext with hnone | hsome
    · rw [hnone] at hid
      cases hid
    · rw [hsome] at hid
      exact Option.some.inj hid ▸ ⟨_, hrow, husable⟩
  | linkAccount id link deleted usedAt hrow =>
    refine h.commit hi rfl hrow hmove rfl rfl rfl rfl (fun hnone => ?_) (fun j hj => ?_) h.chats
    · rw [linkedChats_length] at hnone ⊢
      have haccounts : db.accounts.filter (·.through = id) = [] :=
        List.length_eq_zero_iff.1 (Nat.eq_zero_of_add_eq_zero_right hnone)
      have hchats := Nat.eq_zero_of_add_eq_zero_left hnone
      change ((db.accounts.filter (·.id ∉ deleted) ++ [db.account id link]).filter (·.through = id)).length + _ ≤ 1
      rw [List.filter_append, List.filter_comm, haccounts]
      simpa [LinkDb.account, LinkDb.linkAccount] using hchats
    · rw [linkedChats_length, linkedChats_length]
      refine Nat.add_le_add_right ?_ _
      change ((db.accounts.filter (·.id ∉ deleted) ++ [db.account id link]).filter (·.through = j)).length ≤ _
      rw [List.filter_append]
      have hnew : [db.account id link].filter (·.through = j) = [] := by simp [LinkDb.account, Ne.symm hj]
      rw [hnew, List.append_nil]
      exact ((List.filter_sublist).filter _).length_le
  | linkChat id userId chat usedAt hrow =>
    refine h.commit hi rfl hrow hmove rfl rfl rfl rfl (fun hnone => ?_) (fun j hj => ?_) (upsertChat_unique h.chats)
    · rw [linkedChats_length] at hnone ⊢
      have hchats : db.chats.filter (·.through = id) = [] :=
        List.length_eq_zero_iff.1 (Nat.eq_zero_of_add_eq_zero_left hnone)
      have haccounts := Nat.eq_zero_of_add_eq_zero_right hnone
      have hself := linkedChats_upsert_self ⟨userId, chat.id, chat.type, id⟩ h.chats fun other hother heq =>
        List.filter_eq_nil_iff.1 hchats other hother (decide_eq_true heq)
      exact (congrArg₂ (· + ·) haccounts hself).le
    · rw [linkedChats_length, linkedChats_length]
      exact Nat.add_le_add_left (linkedChats_upsert_other hj) _

/-- Codes that are revoked are not those that updates were let in with. -/
theorem LinkInv.revoke (h : LinkInv db) {owner : Owner} (howner : ∀ call ∈ db.calls, ∀ id row,
    call.pending = some id → db.codes[id]? = some row → owner.owns row = false) {accounts : List TelegramAccount}
    (haccounts : accounts.Sublist db.accounts) :
    LinkInv { db with accounts, codes := revokeCodes db.codes owner db.now } := by
  refine ⟨fun call hcall id hid => ?_, fun id => ?_, h.chats, h.history⟩
  · obtain ⟨row, hrow, husable⟩ := h.pending call hcall id hid
    refine ⟨row, ?_, husable⟩
    change (revokeCodes db.codes owner db.now)[id]? = some row
    rw [revokeCodes_getElem?, hrow, Option.map_some, howner call hcall id row hid hrow, Bool.false_and,
      if_neg Bool.false_ne_true]
  · refine le_trans ?_ ((h.linked id).trans (room_mono fun hused => ?_))
    · rw [linkedChats_length, linkedChats_length]
      exact Nat.add_le_add_right ((haccounts.filter _).length_le) _
    · obtain ⟨row, hrow, hwas⟩ := (Option.any_eq_true _ _).1 hused
      unfold LinkDb.used
      dsimp only
      rw [revokeCodes_getElem?, hrow, Option.map_some, Option.any_some]
      split_ifs
      · rfl
      · exact hwas

theorem LinkInv.step (h : LinkInv db) {action : LinkAction} (husable : StaysUsable db action)
    (hstep : linkStep db action = some db') : LinkInv db' := by
  cases action with
  | tick elapsed =>
    obtain rfl := Option.some.inj hstep
    refine ⟨fun call hcall id hid => ?_, h.linked, h.chats, h.history⟩
    obtain ⟨row, hrow, hwas⟩ := h.pending call hcall id hid
    refine ⟨row, hrow, ?_⟩
    unfold LinkCode.usable at hwas ⊢
    rw [Bool.and_eq_true] at hwas ⊢
    exact ⟨hwas.1, decide_eq_true (husable call hcall id row hid hrow)⟩
  | update code chat =>
    obtain rfl := Option.some.inj hstep
    refine ⟨fun call hcall id hid => ?_, h.linked, h.chats, h.history⟩
    rcases List.mem_append.1 hcall with hold | hnew
    · exact h.pending call hold id hid
    · rw [List.mem_singleton.1 hnew] at hid
      cases hid
  | revoke owner =>
    rw [linkStep] at hstep
    split_ifs at hstep
    obtain rfl := Option.some.inj hstep
    exact h.revoke husable (List.Sublist.refl _)
  | issue owner code =>
    rw [linkStep] at hstep
    split_ifs at hstep
    obtain rfl := Option.some.inj hstep
    refine ⟨fun call hcall id hid => ?_, fun id => ?_, h.chats, h.history⟩
    · obtain ⟨row, hrow, hwas⟩ := h.pending call hcall id hid
      exact ⟨row, getElem?_append_of_some hrow, hwas⟩
    · refine (h.linked id).trans (room_mono fun hused => ?_)
      obtain ⟨row, hrow, hwas⟩ := (Option.any_eq_true _ _).1 hused
      exact (Option.any_eq_true _ _).2 ⟨row, getElem?_append_of_some hrow, hwas⟩
  | disconnect crmUserId =>
    rw [linkStep] at hstep
    split_ifs at hstep
    obtain rfl := Option.some.inj hstep
    exact h.revoke husable List.filter_sublist
  | act i move =>
    obtain ⟨call, hi, hmap⟩ := Option.bind_eq_some_iff.1 hstep
    obtain ⟨next, hmove, rfl⟩ := Option.map_eq_some_iff.1 hmap
    exact h.act hi (moveEffect hmove) husable

/-- **Link codes.** In every run in which a code stays usable until the update that was let in with it is done, at
most one chat is linked through a code, and a code that links is then neither used nor expired. -/
theorem link_codes_single_use (h : Run.ReachableVia linkStep StaysUsable { users } db) :
    (∀ id, (linkedChats db id).length ≤ 1) ∧
      ∀ linked ∈ db.history, linked.row.usedAt = none ∧ linked.time < linked.row.expiresAt := by
  have hinv : LinkInv db := h.invariant (LinkInv.start users) fun _ _ _ hinv husable hstep => hinv.step husable hstep
  refine ⟨fun id => (hinv.linked id).trans (room_le_one db id), fun linked hmem => ?_⟩
  have husable := hinv.history linked hmem
  unfold LinkCode.usable at husable
  rw [Bool.and_eq_true] at husable
  exact ⟨Option.isNone_iff_eq_none.1 husable.1, of_decide_eq_true husable.2⟩

/-! ## Two groups with one code -/

namespace Sample

def anna : List User := [⟨"anna", some "amo-anna", true⟩]

def group (id : String) : Chat := ⟨id, some .supergroup⟩

/-- The call `i` is checked. -/
def received (i : ℕ) (id : String) : List LinkAction := [.update "123456" (group id), .act i .lookup]

/-- The transaction of the call `i`. -/
def transaction (i : ℕ) : List LinkAction := [.act i .upsert, .act i .mark, .act i .commit]

/-- A check that is enough: time passes and codes are revoked only while no update is let in. -/
def staysUsable (db : LinkDb) : LinkAction → Bool
  | .act i .commit =>
    match db.calls[i]? with
    | some call => (db.calls.eraseIdx i).all fun other => other.pending ≠ call.pending
    | none => true
  | .act .. | .update .. | .issue .. => true
  | _ => db.calls.all fun call => call.pending.isNone

theorem staysUsable_spec (db : LinkDb) (action : LinkAction) (h : staysUsable db action = true) :
    StaysUsable db action := by
  have hnone : (db.calls.all fun call => call.pending.isNone) = true → ∀ call ∈ db.calls, ∀ id,
      call.pending ≠ some id := fun hall call hcall id hid => by
    have hpending := List.all_eq_true.1 hall call hcall
    rw [hid] at hpending
    cases hpending
  unfold StaysUsable
  split
  case h_1 => exact fun call hcall id row hid => absurd hid (hnone h call hcall id)
  case h_2 => exact fun call hcall id row hid => absurd hid (hnone h call hcall id)
  case h_3 => exact fun call hcall id row hid => absurd hid (hnone h call hcall id)
  case h_4 i =>
    intro j call other id hne hi hj hpending hother
    rw [staysUsable, hi] at h
    have hmem : other ∈ db.calls.eraseIdx i := by
      rw [List.mem_eraseIdx_iff_getElem?]
      exact ⟨j, hne, hj⟩
    exact of_decide_eq_true (List.all_eq_true.1 h other hmem) (hother.trans hpending.symm)
  case h_5 => trivial

end Sample

/-- Two groups one after the other: the second is not let in. -/
theorem link_codes_single_use_sample : ∃ db, Run.ReachableVia linkStep StaysUsable { users := Sample.anna } db ∧
    linkedChats db 0 = ["-1"] ∧ (linkedChats db 0).length ≤ 1 := by
  have hrun : (Run.runIf Sample.staysUsable linkStep { users := Sample.anna }
      ([.issue (.user "anna") "123456"] ++ Sample.received 0 "-1" ++ Sample.transaction 0 ++
        Sample.received 1 "-2")).any (fun db => linkedChats db 0 = ["-1"]) = true := by
    decide +kernel
  obtain ⟨db, hreach, hdb⟩ := Run.exists_of_runIf Sample.staysUsable_spec hrun
  exact ⟨db, hreach, of_decide_eq_true hdb, (link_codes_single_use hreach).1 0⟩

/-- Both groups are checked before either transaction: the code links both, the second after it was used. -/
theorem link_codes_single_use_fails : ∃ db ∈ Run.run linkStep { users := Sample.anna }
      ([.issue (.user "anna") "123456"] ++ Sample.received 0 "-1" ++ Sample.received 1 "-2" ++
        Sample.transaction 0 ++ Sample.transaction 1),
    linkedChats db 0 = ["-1", "-2"] ∧ ∃ linked ∈ db.history, linked.chatId = "-2" ∧ linked.row.usedAt ≠ none := by
  decide +kernel

end AmoAnalytics.Platform.TelegramLinks
