import AmoAnalytics.Lib.Actors
import AmoAnalytics.Onboarding.Invitations

/-!
# The safety of invitations

A token is used once, in time, while it is the latest one and for the access version that it was issued for, if the
row that an accept consumes still has the token that it has read. Without that a replaced token is accepted.
-/

namespace AmoAnalytics.Onboarding

open Actors

variable {db db' : OnboardingDb} {start : User} {i j : ℕ} {call other : OnboardingCall} {move : Move}
  {action : OnboardingAction} {next : User × Option Invite × List Event × OnboardingCall} {invite row : Invite}
  {history : List Event} {tokenHash : ℕ} {passwordHash : String}

/-! ## The history -/

/-- The invitation that was committed last. -/
def lastInvite : List Event → Option Invite
  | [] => none
  | .invited invite :: _ => some invite
  | _ :: history => lastInvite history

/-- The account is switched on. -/
def Event.activates : Event → Bool
  | .invited _ => false
  | .accepted .. => true
  | .changed switchedOn _ => switchedOn

def activations (history : List Event) : ℕ := history.countP Event.activates

/-- The password that was set last. -/
def passwordAfter (start : String) : List Event → String
  | [] => start
  | .accepted _ passwordHash :: _ | .changed _ (some passwordHash) :: _ => passwordHash
  | .invited _ :: history | .changed _ none :: history => passwordAfter start history

/-- A token is the latest one, for this access version of the account, in time and not used. -/
def Accepts (db : OnboardingDb) (tokenHash : ℕ) : Prop :=
  ∃ invite, lastInvite db.history = some invite ∧ invite.tokenHash = tokenHash ∧
    invite.accessVersion = db.user.accessVersion ∧ db.now ≤ invite.expiresAt ∧
    ∀ passwordHash, Event.accepted tokenHash passwordHash ∉ db.history

theorem mem_of_lastInvite (h : lastInvite history = some invite) : Event.invited invite ∈ history := by
  induction history with
  | nil => exact nomatch h
  | cons event history ih =>
    cases event with
    | invited first =>
      obtain rfl := Option.some.inj h
      exact List.mem_cons_self
    | accepted => exact List.mem_cons_of_mem _ (ih h)
    | changed => exact List.mem_cons_of_mem _ (ih h)

/-! ## Moves -/

/-- What a move of a call does. -/
inductive MoveEffect (db : OnboardingDb) :
    Move → OnboardingCall → User × Option Invite × List Event × OnboardingCall → Prop
  | fail (move : Move) (call : OnboardingCall) : MoveEffect db move call (db.user, db.invite, [], .done)
  | authorize (invite : Invite) : MoveEffect db .authorize (.inviting invite)
      (db.user, db.invite, [], .admitted { invite with accessVersion := db.user.accessVersion })
  | upsert (invite : Invite) (hfree : db.inviteLocked = false) :
    MoveEffect db .upsert (.admitted invite) (db.user, db.invite, [], .reissued invite)
  | check (tokenHash : ℕ) (passwordHash : String) : MoveEffect db .check (.accepting tokenHash passwordHash)
      (db.user, db.invite, [], .hashed tokenHash passwordHash)
  | lookup (tokenHash : ℕ) (passwordHash : String) (row : Invite) (hrow : db.invite = some row) :
    MoveEffect db .lookup (.hashed tokenHash passwordHash) (db.user, db.invite, [], .reading passwordHash row)
  | join (passwordHash : String) (invite : Invite) : MoveEffect db .join (.reading passwordHash invite)
      (db.user, db.invite, [], .joined passwordHash invite db.user)
  | validate (eligible : Bool) (passwordHash : String) (invite : Invite) (user : User) :
    MoveEffect db (.validate eligible) (.joined passwordHash invite user)
      (db.user, db.invite, [], .validated passwordHash invite)
  | consume (passwordHash : String) (invite row : Invite) (hfree : db.inviteLocked = false)
    (hrow : db.invite = some row) (hunused : row.usedAt = none) :
    MoveEffect db .consume (.validated passwordHash invite)
      (db.user, db.invite, [], .consumed passwordHash invite { row with usedAt := some db.now })
  | activate (passwordHash : String) (invite row : Invite) (hfree : db.userLocked = false)
    (hinactive : db.user.isActive = false) (hversion : db.user.accessVersion = invite.accessVersion) :
    MoveEffect db .activate (.consumed passwordHash invite row)
      (db.user, db.invite, [], .activated passwordHash invite row (db.user.activate passwordHash))
  | permit (change : AccountChange) :
    MoveEffect db .permit (.changing change) (db.user, db.invite, [], .permitted change)
  | write (change : AccountChange) (hfree : db.userLocked = false) :
    MoveEffect db .write (.permitted change) (db.user, db.invite, [], .changed change (change.apply db.user))
  | reissue (invite : Invite) : MoveEffect db .commit (.reissued invite)
      (db.user, some invite, [.invited invite], .done)
  | accept (passwordHash : String) (invite row : Invite) (user : User) :
    MoveEffect db .commit (.activated passwordHash invite row user)
      (user, some row, [.accepted invite.tokenHash passwordHash], .done)
  | change (change : AccountChange) (user : User) : MoveEffect db .commit (.changed change user)
      (user, db.invite, [.changed (!db.user.isActive && user.isActive) change.passwordHash], .done)

theorem moveEffect (h : db.move move call = some next) : MoveEffect db move call next := by
  unfold OnboardingDb.move at h
  split at h
  case h_1 invite =>
    obtain rfl := Option.some.inj h
    split_ifs
    · exact .authorize invite
    · exact .fail _ _
  case h_2 invite =>
    split_ifs at h with hfree
    obtain rfl := Option.some.inj h
    exact .upsert invite (Bool.eq_false_iff.2 hfree)
  case h_3 tokenHash passwordHash =>
    obtain rfl := Option.some.inj h
    split_ifs
    · exact .check tokenHash passwordHash
    · exact .fail _ _
  case h_4 tokenHash passwordHash =>
    obtain rfl := Option.some.inj h
    cases hfind : db.findInvite tokenHash with
    | none => exact .fail _ _
    | some row => exact .lookup tokenHash passwordHash row (Option.filter_eq_some_iff.1 hfind).1
  case h_5 passwordHash invite =>
    obtain rfl := Option.some.inj h
    exact .join passwordHash invite
  case h_6 eligible passwordHash invite user =>
    obtain rfl := Option.some.inj h
    split_ifs
    · exact .validate eligible passwordHash invite user
    · exact .fail _ _
  case h_7 passwordHash invite =>
    split_ifs at h with hfree
    obtain rfl := Option.some.inj h
    cases hrow : db.invite.filter fun row => row.usedAt = none with
    | none => exact .fail _ _
    | some row =>
      obtain ⟨hinvite, hunused⟩ := Option.filter_eq_some_iff.1 hrow
      exact .consume passwordHash invite row (Bool.eq_false_iff.2 hfree) hinvite (of_decide_eq_true hunused)
  case h_8 passwordHash invite row =>
    split_ifs at h with hfree hsame
    · obtain rfl := Option.some.inj h
      exact .activate passwordHash invite row (Bool.eq_false_iff.2 hfree) hsame.1 hsame.2
    · obtain rfl := Option.some.inj h
      exact .fail _ _
  case h_9 change =>
    obtain rfl := Option.some.inj h
    split_ifs
    · exact .permit change
    · exact .fail _ _
  case h_10 change =>
    split_ifs at h with hfree
    obtain rfl := Option.some.inj h
    exact .write change (Bool.eq_false_iff.2 hfree)
  case h_11 invite =>
    obtain rfl := Option.some.inj h
    exact .reissue invite
  case h_12 passwordHash invite row user =>
    obtain rfl := Option.some.inj h
    exact .accept passwordHash invite row user
  case h_13 change user =>
    obtain rfl := Option.some.inj h
    exact .change change user
  case h_14 =>
    obtain rfl := Option.some.inj h
    exact .fail _ _
  case h_15 => exact nomatch h

/-! ## Calls -/

/-- The token of an invitation that is not committed. -/
def OnboardingCall.newToken : OnboardingCall → Option ℕ
  | .inviting invite | .admitted invite | .reissued invite => some invite.tokenHash
  | _ => none

/-- Two calls do not lock the same row, and draw different tokens. -/
structure Compatible (a b : OnboardingCall) : Prop where
  invite : a.locksInvite = true → b.locksInvite = false
  user : a.locksUser = true → b.locksUser = false
  tokens : ∀ tokenHash, a.newToken = some tokenHash → b.newToken ≠ some tokenHash

theorem Compatible.symm {a b : OnboardingCall} (h : Compatible a b) : Compatible b a := by
  refine ⟨fun hb => Bool.eq_false_iff.2 fun ha => ?_, fun hb => Bool.eq_false_iff.2 fun ha => ?_,
    fun tokenHash hb ha => h.tokens tokenHash ha hb⟩
  · rw [h.invite ha] at hb
    exact nomatch hb
  · rw [h.user ha] at hb
    exact nomatch hb

/-- An invitation that has been committed, as it was issued. -/
def Issued (history : List Event) (invite : Invite) : Prop := Event.invited invite.issue ∈ history

/-- The committed row has the token that an accept has read, and the accept has marked it as used. -/
def Consumes (db : OnboardingDb) (invite row : Invite) : Prop :=
  ∃ base, db.invite = some base ∧ base.usedAt = none ∧ base.issue = invite.issue ∧ row.issue = base.issue

/-- What a call knows of the committed rows. -/
def CallOk (db : OnboardingDb) : OnboardingCall → Prop
  | .inviting invite | .admitted invite | .reissued invite => invite.usedAt = none ∧ invite.tokenHash < db.drawn ∧
    ∀ old, Event.invited old ∈ db.history → old.tokenHash ≠ invite.tokenHash
  | .reading _ invite | .joined _ invite _ | .validated _ invite => Issued db.history invite
  | .consumed _ invite row => Issued db.history invite ∧ Consumes db invite row
  | .activated passwordHash invite row user => Issued db.history invite ∧ Consumes db invite row ∧
    user = db.user.activate passwordHash ∧ db.user.isActive = false ∧
      db.user.accessVersion = invite.accessVersion
  | .changed change user => user = change.apply db.user
  | .accepting .. | .hashed .. | .changing _ | .permitted _ | .done => True

/-- What a step of another call may do. -/
structure Frame (call : OnboardingCall) (db db' : OnboardingDb) : Prop where
  invite : call.locksInvite = true → db'.invite = db.invite
  user : call.locksUser = true → db'.user = db.user
  drawn : db.drawn ≤ db'.drawn
  grown : ∀ old, Event.invited old ∈ db.history → Event.invited old ∈ db'.history
  new : ∀ old, Event.invited old ∈ db'.history →
    Event.invited old ∈ db.history ∨ call.newToken ≠ some old.tokenHash

theorem CallOk.frame (h : CallOk db call) (hframe : Frame call db db') : CallOk db' call := by
  have hunseen : ∀ invite : Invite, call.newToken = some invite.tokenHash →
      invite.usedAt = none ∧ invite.tokenHash < db.drawn ∧
        (∀ old, Event.invited old ∈ db.history → old.tokenHash ≠ invite.tokenHash) →
      invite.usedAt = none ∧ invite.tokenHash < db'.drawn ∧
        ∀ old, Event.invited old ∈ db'.history → old.tokenHash ≠ invite.tokenHash := by
    rintro invite htoken ⟨hunused, hdrawn, hold⟩
    refine ⟨hunused, hdrawn.trans_le hframe.drawn, fun old hmem heq => ?_⟩
    rcases hframe.new old hmem with hwas | hne
    · exact hold old hwas heq
    · exact hne (htoken.trans (congrArg some heq.symm))
  have hconsumes : ∀ invite row : Invite, call.locksInvite = true → Consumes db invite row →
      Consumes db' invite row := by
    rintro invite row hlocks ⟨base, hbase, hrest⟩
    exact ⟨base, (hframe.invite hlocks).trans hbase, hrest⟩
  cases call with
  | inviting invite => exact hunseen invite rfl h
  | admitted invite => exact hunseen invite rfl h
  | reissued invite => exact hunseen invite rfl h
  | reading => exact hframe.grown _ h
  | joined => exact hframe.grown _ h
  | validated => exact hframe.grown _ h
  | consumed passwordHash invite row => exact ⟨hframe.grown _ h.1, hconsumes invite row rfl h.2⟩
  | activated passwordHash invite row user =>
    obtain ⟨hissued, hrow, huser, hinactive, hversion⟩ := h
    rw [CallOk, hframe.user rfl]
    exact ⟨hframe.grown _ hissued, hconsumes invite row rfl hrow, huser, hinactive, hversion⟩
  | changed change user =>
    rw [CallOk, hframe.user rfl]
    exact h
  | _ => trivial

/-! ## The condition -/

/-- The row that an accept consumes has the token that it has read, an accept commits in time, and no change switches
an active account off. -/
def Proper (db : OnboardingDb) : OnboardingAction → Prop
  | .act i .consume => ∀ passwordHash invite row, db.calls[i]? = some (.validated passwordHash invite) →
    db.invite = some row → row.usedAt = none → row.tokenHash = invite.tokenHash
  | .act i .commit =>
    (∀ passwordHash invite row user, db.calls[i]? = some (.activated passwordHash invite row user) →
      db.now ≤ invite.expiresAt) ∧
    ∀ change user, db.calls[i]? = some (.changed change user) → db.user.isActive = true → change.isActive = true
  | _ => True

/-! ## The invariant -/

structure OnboardingInv (start : User) (db : OnboardingDb) : Prop where
  calls : Pairs Compatible db.calls
  ok : ∀ call ∈ db.calls, CallOk db call
  invite : ∀ row, db.invite = some row → lastInvite db.history = some row.issue
  drawn : ∀ invite, Event.invited invite ∈ db.history → invite.tokenHash < db.drawn
  unique : ∀ a b : Invite, Event.invited a ∈ db.history → Event.invited b ∈ db.history →
    a.tokenHash = b.tokenHash → a = b
  /-- A token that was accepted is for an older version. -/
  accepted : ∀ tokenHash passwordHash, Event.accepted tokenHash passwordHash ∈ db.history →
    ∃ invite, Event.invited invite ∈ db.history ∧ invite.tokenHash = tokenHash ∧
      invite.accessVersion < db.user.accessVersion
  once : activations db.history + (if db.user.isActive = true then 0 else 1) ≤ 1
  password : db.user.passwordHash = passwordAfter start.passwordHash db.history

/-- A committed row has been issued. -/
theorem OnboardingInv.issued (h : OnboardingInv start db) (hrow : db.invite = some row) : Issued db.history row :=
  mem_of_lastInvite (h.invite row hrow)

theorem locksInvite_eq_false (hfree : db.inviteLocked = false) (hcall : call ∈ db.calls) :
    call.locksInvite = false :=
  Bool.eq_false_iff.2 (List.any_eq_false.1 hfree call hcall)

theorem locksUser_eq_false (hfree : db.userLocked = false) (hcall : call ∈ db.calls) : call.locksUser = false :=
  Bool.eq_false_iff.2 (List.any_eq_false.1 hfree call hcall)

/-- The mover stays compatible with the others: it takes a lock that is free. -/
theorem MoveEffect.compatible (h : MoveEffect db move call next) (hother : other ∈ db.calls)
    (hwas : Compatible call other) : Compatible next.2.2.2 other := by
  have hdone : Compatible .done other := ⟨nofun, nofun, nofun⟩
  cases h with
  | fail => exact hdone
  | authorize => exact ⟨nofun, nofun, hwas.tokens⟩
  | upsert invite hfree => exact ⟨fun _ => locksInvite_eq_false hfree hother, nofun, hwas.tokens⟩
  | consume passwordHash invite row hfree => exact ⟨fun _ => locksInvite_eq_false hfree hother, nofun, nofun⟩
  | activate passwordHash invite row hfree =>
    exact ⟨fun _ => hwas.invite rfl, fun _ => locksUser_eq_false hfree hother, nofun⟩
  | write change hfree => exact ⟨nofun, fun _ => locksUser_eq_false hfree hother, nofun⟩
  | _ => exact ⟨nofun, nofun, nofun⟩

/-- What the others see of a move. -/
theorem MoveEffect.frame (h : MoveEffect db move call next) {calls : List OnboardingCall}
    (hcompatible : Compatible call other) : Frame other db { db with
      user := next.1, invite := next.2.1, history := next.2.2.1 ++ db.history, calls } := by
  have hnothing : Frame other db { db with calls } :=
    ⟨fun _ => rfl, fun _ => rfl, le_rfl, fun _ hold => hold, fun _ hold => Or.inl hold⟩
  have hfree : ∀ {locked : Bool} {p : Prop}, locked = false → locked = true → p := by
    rintro locked p rfl hlocked
    exact nomatch hlocked
  cases h with
  | reissue invite =>
    refine ⟨hfree (hcompatible.invite rfl), fun _ => rfl, le_rfl, fun old hold => List.mem_cons_of_mem _ hold,
      fun old hold => ?_⟩
    rcases List.mem_cons.1 hold with hnew | hwas
    · obtain rfl := Event.invited.inj hnew
      exact Or.inr (hcompatible.tokens _ rfl)
    · exact Or.inl hwas
  | accept passwordHash invite row user =>
    refine ⟨hfree (hcompatible.invite rfl), hfree (hcompatible.user rfl), le_rfl,
      fun old hold => List.mem_cons_of_mem _ hold, fun old hold => Or.inl ?_⟩
    exact (List.mem_cons.1 hold).resolve_left nofun
  | change change user =>
    refine ⟨fun _ => rfl, hfree (hcompatible.user rfl), le_rfl, fun old hold => List.mem_cons_of_mem _ hold,
      fun old hold => Or.inl ?_⟩
    exact (List.mem_cons.1 hold).resolve_left nofun
  | _ => exact hnothing

theorem issue_eq_of_usedAt (h : invite.usedAt = none) : invite.issue = invite := by
  cases invite
  cases h
  rfl

/-- What a call knows after its move. -/
theorem MoveEffect.ok (h : MoveEffect db move call next) (hinv : OnboardingInv start db) (hi : db.calls[i]? = some call)
    (hproper : Proper db (.act i move)) {calls : List OnboardingCall} : CallOk { db with
      user := next.1, invite := next.2.1, history := next.2.2.1 ++ db.history, calls } next.2.2.2 := by
  have hok := hinv.ok call (List.mem_of_getElem? hi)
  cases h with
  | authorize => exact hok
  | upsert => exact hok
  | lookup tokenHash passwordHash row hrow => exact hinv.issued hrow
  | join => exact hok
  | validate => exact hok
  | consume passwordHash invite row hfree hrow hunused =>
    have htoken := hproper passwordHash invite row hi hrow hunused
    exact ⟨hok, row, hrow, hunused, hinv.unique _ _ (hinv.issued hrow) hok htoken, rfl⟩
  | activate passwordHash invite row hfree hinactive hversion => exact ⟨hok.1, hok.2, rfl, hinactive, hversion⟩
  | write => exact rfl
  | _ => trivial

theorem OnboardingInv.act (h : OnboardingInv start db) (hi : db.calls[i]? = some call)
    (heffect : MoveEffect db move call next) (hproper : Proper db (.act i move)) :
    OnboardingInv start { db with
      user := next.1, invite := next.2.1, history := next.2.2.1 ++ db.history
      calls := db.calls.set i next.2.2.2 } := by
  have hok := h.ok call (List.mem_of_getElem? hi)
  have hothers : ∀ j other, j ≠ i → db.calls[j]? = some other → Compatible call other :=
    fun j other hji hj => h.calls i j call other (Ne.symm hji) hi hj
  have hcalls : Pairs Compatible (db.calls.set i next.2.2.2) := h.calls.set fun j other hji hj => by
    have hnext := heffect.compatible (List.mem_of_getElem? hj) (hothers j other hji hj)
    exact ⟨hnext, hnext.symm⟩
  have hown : CallOk { db with
      user := next.1, invite := next.2.1, history := next.2.2.1 ++ db.history
      calls := db.calls.set i next.2.2.2 } next.2.2.2 := heffect.ok h hi hproper
  have hall := forall_mem_set hown
    fun j other hji hj => (h.ok other (List.mem_of_getElem? hj)).frame (heffect.frame (hothers j other hji hj))
  cases heffect with
  | reissue invite =>
    obtain ⟨hunused, hdrawn, hnew⟩ := hok
    refine ⟨hcalls, hall, fun row hrow => ?_, fun old hold => ?_, fun a b ha hb hab => ?_,
      fun tokenHash passwordHash haccepted => ?_, h.once, h.password⟩
    · obtain rfl := Option.some.inj hrow
      rw [issue_eq_of_usedAt hunused]
      rfl
    · rcases List.mem_cons.1 hold with heq | hwas
      · obtain rfl := Event.invited.inj heq
        exact hdrawn
      · exact h.drawn old hwas
    · rcases List.mem_cons.1 ha with heq | hold
      · obtain rfl := Event.invited.inj heq
        rcases List.mem_cons.1 hb with heq' | hold'
        · exact (Event.invited.inj heq').symm
        · exact absurd hab.symm (hnew b hold')
      · rcases List.mem_cons.1 hb with heq' | hold'
        · obtain rfl := Event.invited.inj heq'
          exact absurd hab (hnew a hold)
        · exact h.unique a b hold hold' hab
    · obtain ⟨old, hold, hrest⟩ := h.accepted tokenHash passwordHash ((List.mem_cons.1 haccepted).resolve_left nofun)
      exact ⟨old, List.mem_cons_of_mem _ hold, hrest⟩
  | accept passwordHash invite row user =>
    obtain ⟨hissued, ⟨base, hbase, -, -, hrow⟩, rfl, hinactive, hversion⟩ := hok
    refine ⟨hcalls, hall, fun row' hrow' => ?_, fun old hold => h.drawn old ((List.mem_cons.1 hold).resolve_left nofun),
      fun a b ha hb => h.unique a b ((List.mem_cons.1 ha).resolve_left nofun) ((List.mem_cons.1 hb).resolve_left nofun),
      fun tokenHash passwordHash' haccepted => ?_, ?_, rfl⟩
    · obtain rfl := Option.some.inj hrow'
      exact (h.invite base hbase).trans (congrArg some hrow.symm)
    · rcases List.mem_cons.1 haccepted with heq | hwas
      · obtain ⟨rfl, rfl⟩ := Event.accepted.inj heq
        exact ⟨invite.issue, List.mem_cons_of_mem _ hissued, rfl, hversion ▸ Nat.lt_succ_self _⟩
      · obtain ⟨old, hold, htoken, hlt⟩ := h.accepted tokenHash passwordHash' hwas
        exact ⟨old, List.mem_cons_of_mem _ hold, htoken, Nat.lt_succ_of_lt hlt⟩
    · have honce := h.once
      change List.countP Event.activates (.accepted invite.tokenHash passwordHash :: db.history) + 0 ≤ 1
      rw [List.countP_cons]
      simpa [Event.activates, activations, hinactive] using honce
  | change change user =>
    obtain rfl : user = change.apply db.user := hok
    have hon := hproper.2 change _ hi
    refine ⟨hcalls, hall, h.invite, fun old hold => h.drawn old ((List.mem_cons.1 hold).resolve_left nofun),
      fun a b ha hb => h.unique a b ((List.mem_cons.1 ha).resolve_left nofun) ((List.mem_cons.1 hb).resolve_left nofun),
      fun tokenHash passwordHash haccepted => ?_, ?_, ?_⟩
    · obtain ⟨old, hold, htoken, hlt⟩ := h.accepted tokenHash passwordHash ((List.mem_cons.1 haccepted).resolve_left nofun)
      exact ⟨old, List.mem_cons_of_mem _ hold, htoken, Nat.lt_succ_of_lt hlt⟩
    · have honce := h.once
      change List.countP Event.activates (.changed (!db.user.isActive && change.isActive) change.passwordHash :: db.history)
        + (if change.isActive = true then 0 else 1) ≤ 1
      rw [List.countP_cons]
      cases hactive : db.user.isActive <;> cases hchange : change.isActive
      · simpa [Event.activates, activations, hactive] using honce
      · simpa [Event.activates, activations, hactive] using honce
      · exact absurd (hon hactive) (by rw [hchange]; exact nofun)
      · simpa [Event.activates, activations, hactive] using honce
    · cases hpassword : change.passwordHash with
      | none => simpa [AccountChange.apply, passwordAfter, hpassword] using h.password
      | some passwordHash => simp [AccountChange.apply, passwordAfter, hpassword]
  | _ => exact ⟨hcalls, hall, h.invite, h.drawn, h.unique, h.accepted, h.once, h.password⟩

/-- A call that begins without a token. -/
theorem OnboardingInv.begin {new : OnboardingCall} (h : OnboardingInv start db) (hinvite : new.locksInvite = false)
    (huser : new.locksUser = false) (htoken : new.newToken = none) (hok : CallOk db new) :
    OnboardingInv start { db with calls := db.calls ++ [new] } := by
  refine ⟨h.calls.append fun b _ => ?_, fun call hcall => ?_, h.invite, h.drawn, h.unique, h.accepted, h.once, h.password⟩
  · have hnew : Compatible new b :=
      ⟨fun hlocks => (nomatch hinvite.symm.trans hlocks), fun hlocks => (nomatch huser.symm.trans hlocks),
        fun _ hdrawn => (nomatch htoken.symm.trans hdrawn)⟩
    exact ⟨hnew, hnew.symm⟩
  · rcases List.mem_append.1 hcall with hold | hmem
    · exact h.ok call hold
    · obtain rfl := List.mem_singleton.1 hmem
      exact hok

/-- The token of an invitation that is not committed has been drawn. -/
theorem newToken_lt (hok : CallOk db call) (h : call.newToken = some tokenHash) : tokenHash < db.drawn := by
  cases call with
  | inviting =>
    cases h
    exact hok.2.1
  | admitted =>
    cases h
    exact hok.2.1
  | reissued =>
    cases h
    exact hok.2.1
  | _ => exact nomatch h

theorem OnboardingInv.step (h : OnboardingInv start db) (hproper : Proper db action)
    (hstep : onboardingStep db action = some db') : OnboardingInv start db' := by
  cases action with
  | tick elapsed =>
    obtain rfl := Option.some.inj hstep
    exact ⟨h.calls, h.ok, h.invite, h.drawn, h.unique, h.accepted, h.once, h.password⟩
  | invite =>
    obtain rfl := Option.some.inj hstep
    refine ⟨h.calls.append fun b hb => ?_, fun call hcall => ?_, h.invite,
      fun old hold => Nat.lt_succ_of_lt (h.drawn old hold), h.unique, h.accepted, h.once, h.password⟩
    · have hnew : Compatible (.inviting { tokenHash := db.drawn, expiresAt := db.now + inviteMs, accessVersion := 0 })
          b := by
        refine ⟨nofun, nofun, fun tokenHash hnew hother => ?_⟩
        obtain rfl := Option.some.inj hnew
        exact lt_irrefl _ (newToken_lt (h.ok b hb) hother)
      exact ⟨hnew, hnew.symm⟩
    · rcases List.mem_append.1 hcall with hold | hmem
      · exact (h.ok call hold).frame ⟨fun _ => rfl, fun _ => rfl, Nat.le_succ _, fun _ hold => hold,
          fun _ hold => Or.inl hold⟩
      · obtain rfl := List.mem_singleton.1 hmem
        exact ⟨rfl, Nat.lt_succ_self _, fun old hold => (h.drawn old hold).ne⟩
  | accept tokenHash passwordHash =>
    obtain rfl := Option.some.inj hstep
    exact h.begin rfl rfl rfl trivial
  | updateAccount change =>
    obtain rfl := Option.some.inj hstep
    exact h.begin rfl rfl rfl trivial
  | act i move =>
    obtain ⟨call, hi, hmap⟩ := Option.bind_eq_some_iff.1 hstep
    obtain ⟨next, hmove, rfl⟩ := Option.map_eq_some_iff.1 hmap
    exact h.act hi (moveEffect hmove) hproper

theorem onboardingInv_of_reachable {prepared : Bool}
    (h : Run.ReachableVia onboardingStep Proper { user := start, prepared } db) : OnboardingInv start db := by
  refine h.invariant ⟨pairs_nil, ?_, nofun, ?_, ?_, ?_, ?_, rfl⟩ fun _ _ _ hinv hproper hstep => hinv.step hproper hstep
  · exact fun _ hcall => absurd hcall List.not_mem_nil
  · exact fun _ hmem => absurd hmem List.not_mem_nil
  · exact fun _ _ hmem => absurd hmem List.not_mem_nil
  · exact fun _ _ hmem => absurd hmem List.not_mem_nil
  · change List.countP Event.activates [] + _ ≤ 1
    rw [List.countP_nil]
    split_ifs
    · exact Nat.zero_le _
    · exact le_rfl

/-! ## Invitations -/

/-- What the invitations of an account guarantee in a state. -/
structure InvitationsSafe (start : User) (db : OnboardingDb) : Prop where
  /-- The account is switched on at most once. -/
  once : activations db.history ≤ 1
  /-- The password is the one of the call that has set it last: the accepted call, or a later change. -/
  password : db.user.passwordHash = passwordAfter start.passwordHash db.history
  /-- An accept that commits switches the account on with its password, and its token is then still good. -/
  accepts : ∀ action db' tokenHash passwordHash, Proper db action → onboardingStep db action = some db' →
    db'.history = .accepted tokenHash passwordHash :: db.history →
      Accepts db tokenHash ∧ db.user.isActive = false ∧ db'.user = db.user.activate passwordHash

theorem OnboardingInv.accepts (h : OnboardingInv start db) (hproper : Proper db action)
    (hstep : onboardingStep db action = some db')
    (haccepted : db'.history = .accepted tokenHash passwordHash :: db.history) :
    Accepts db tokenHash ∧ db.user.isActive = false ∧ db'.user = db.user.activate passwordHash := by
  have hsame : db.history ≠ .accepted tokenHash passwordHash :: db.history :=
    fun heq => List.cons_ne_self _ _ heq.symm
  cases action with
  | tick =>
    obtain rfl := Option.some.inj hstep
    exact absurd haccepted hsame
  | invite =>
    obtain rfl := Option.some.inj hstep
    exact absurd haccepted hsame
  | accept =>
    obtain rfl := Option.some.inj hstep
    exact absurd haccepted hsame
  | updateAccount =>
    obtain rfl := Option.some.inj hstep
    exact absurd haccepted hsame
  | act i move =>
    obtain ⟨call, hi, hmap⟩ := Option.bind_eq_some_iff.1 hstep
    obtain ⟨next, hmove, rfl⟩ := Option.map_eq_some_iff.1 hmap
    cases moveEffect hmove with
    | accept passwordHash' invite row user =>
      obtain ⟨heq, -⟩ := List.cons.inj haccepted
      obtain ⟨rfl, rfl⟩ := Event.accepted.inj heq
      obtain ⟨hissued, ⟨base, hbase, -, hsame_issue, -⟩, rfl, hinactive, hversion⟩ := h.ok _ (List.mem_of_getElem? hi)
      have htime : db.now ≤ invite.expiresAt := hproper.1 _ _ _ _ hi
      refine ⟨⟨invite.issue, ?_, rfl, hversion.symm, htime, fun passwordHash hused => ?_⟩, hinactive, rfl⟩
      · exact (h.invite base hbase).trans (congrArg some hsame_issue)
      · obtain ⟨old, hold, htoken, hlt⟩ := h.accepted _ passwordHash hused
        obtain rfl := h.unique old invite.issue hold hissued htoken
        exact absurd hversion hlt.ne'
    | reissue invite =>
      obtain ⟨heq, -⟩ := List.cons.inj haccepted
      exact nomatch heq
    | change change user =>
      obtain ⟨heq, -⟩ := List.cons.inj haccepted
      exact nomatch heq
    | _ => exact absurd haccepted hsame

/-- **Invitations.** They are safe in every run whose steps are proper. -/
theorem invitations_safe {prepared : Bool}
    (h : Run.ReachableVia onboardingStep Proper { user := start, prepared } db) : InvitationsSafe start db := by
  have hinv := onboardingInv_of_reachable h
  refine ⟨(Nat.le_add_right _ _).trans hinv.once, hinv.password, ?_⟩
  exact fun action db' tokenHash passwordHash hproper hstep haccepted => hinv.accepts hproper hstep haccepted

namespace Sample

/-- A manager that has not entered yet. -/
def prepared : User := ⟨.manager, false, 3, "none"⟩

/-- The call `i` issues a token. -/
def issues (i : ℕ) : List OnboardingAction := [.invite, .act i .authorize, .act i .upsert, .act i .commit]

/-- The call `i` accepts a token and has read the invitation and the account. -/
def reads (i tokenHash : ℕ) : List OnboardingAction :=
  [.accept tokenHash "secret", .act i .check, .act i .lookup, .act i .join, .act i (.validate true)]

/-- The first token is replaced, and the second one is accepted. -/
def secondToken : List OnboardingAction :=
  issues 0 ++ issues 1 ++ reads 2 1 ++ [.act 2 .consume, .act 2 .activate]

def isProper (db : OnboardingDb) : OnboardingAction → Bool
  | .act i .consume =>
    match db.calls[i]?, db.invite with
    | some (.validated _ invite), some row => row.tokenHash = invite.tokenHash
    | _, _ => true
  | .act i .commit =>
    match db.calls[i]? with
    | some (.activated _ invite _ _) => db.now ≤ invite.expiresAt
    | some (.changed change _) => !db.user.isActive || change.isActive
    | _ => true
  | _ => true

theorem proper_of_isProper (db : OnboardingDb) (action : OnboardingAction) (h : isProper db action = true) :
    Proper db action := by
  unfold Proper
  split
  case h_1 i =>
    intro passwordHash invite row hi hrow _
    simpa [isProper, hi, hrow] using h
  case h_2 i =>
    refine ⟨fun passwordHash invite row user hi => ?_, fun change user hi hactive => ?_⟩
    · simpa [isProper, hi] using h
    · simpa [isProper, hi, hactive] using h
  case h_3 => trivial

end Sample

/-- The second token is about to be committed as accepted. -/
theorem invitations_safe_sample :
    ∃ db, Run.ReachableVia onboardingStep Proper { user := Sample.prepared, prepared := true } db ∧
      InvitationsSafe Sample.prepared db ∧ ∃ db', onboardingStep db (.act 2 .commit) = some db' ∧
        db'.history = .accepted 1 "secret" :: db.history := by
  have hrun : (Run.runIf Sample.isProper onboardingStep { user := Sample.prepared, prepared := true }
      Sample.secondToken).any (fun db => ∃ db' ∈ onboardingStep db (.act 2 .commit),
        db'.history = .accepted 1 "secret" :: db.history) = true := by
    decide +kernel
  obtain ⟨db, hreach, hdb⟩ := Run.exists_of_runIf Sample.proper_of_isProper hrun
  exact ⟨db, hreach, invitations_safe hreach, of_decide_eq_true hdb⟩

/-- **A replaced token is accepted.** The first token has been read, the second one is issued, and the accept consumes
the row of the second one. -/
theorem replaced_token :
    ∃ db ∈ Run.run onboardingStep { user := Sample.prepared, prepared := true }
        (Sample.issues 0 ++ Sample.reads 1 0 ++ Sample.issues 2 ++ [.act 1 .consume, .act 1 .activate]),
      (∃ invite ∈ lastInvite db.history, invite.tokenHash = 1) ∧ ∃ db' ∈ onboardingStep db (.act 1 .commit),
        db'.history = .accepted 0 "secret" :: db.history ∧ db'.user.isActive = true := by
  decide +kernel

end AmoAnalytics.Onboarding
