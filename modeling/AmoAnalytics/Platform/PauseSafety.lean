import AmoAnalytics.Lib.Actors
import AmoAnalytics.Platform.TelegramPause

/-!
# The pause is effective

A request that begins so early that its own limit ends before the limit of its transaction is over before the
shared lock is free. If all requests do, then from the commit of a pause to the commit of the next resume no
request is open. A request that begins later can outlive its lock.
-/

namespace AmoAnalytics.Platform

open Actors

variable {db db' last : PauseDb} {caller other : Caller} {i j startedAt : ℕ} {enabled : Bool} {now : ℕ}

/-! ## One move -/

/-- What a move does. -/
inductive MoveEffect (db : PauseDb) : Move → Caller → PauseSettings × Caller → Prop
  | lockShared (startedAt : ℕ) (h : ∀ caller ∈ db.callers, caller.holdsExclusive = false) :
      MoveEffect db .lock (.sender startedAt true .waiting) (db.settings, .sender startedAt true .locked)
  | lockExclusive (startedAt : ℕ) (request : AdminRequest)
      (h : ∀ caller ∈ db.callers, caller.holdsShared = false ∧ caller.holdsExclusive = false) :
      MoveEffect db .lock (.admin startedAt request .waiting) (db.settings, .admin startedAt request .locked)
  | read (startedAt : ℕ) (h : db.settings.enabled = true) :
      MoveEffect db .read (.sender startedAt true .locked) (db.settings, .sender startedAt true .checked)
  | paused (startedAt : ℕ) : MoveEffect db .read (.sender startedAt true .locked) (db.settings, .done)
  | request (startedAt : ℕ) (isOpen : Bool) : MoveEffect db .request (.sender startedAt isOpen .checked)
      (db.settings, .sender startedAt isOpen (.requesting db.now))
  | respond (startedAt : ℕ) (isOpen : Bool) (beganAt : ℕ) :
      MoveEffect db .respond (.sender startedAt isOpen (.requesting beganAt))
        (db.settings, .sender startedAt isOpen .responded)
  | write (startedAt : ℕ) (request : AdminRequest) (next : PauseSettings) :
      MoveEffect db .write (.admin startedAt request .locked) (db.settings, .admin startedAt request (.written next))
  | reject (startedAt : ℕ) (request : AdminRequest) :
      MoveEffect db .write (.admin startedAt request .locked) (db.settings, .done)
  | close (startedAt : ℕ) (isOpen : Bool) :
      MoveEffect db .commit (.sender startedAt isOpen .responded) (db.settings, .done)
  | commit (startedAt : ℕ) (request : AdminRequest) (next : PauseSettings) :
      MoveEffect db .commit (.admin startedAt request (.written next)) (next, .done)
  | expire (caller : Caller) (h : caller.overdue db.now = true) :
      MoveEffect db .expire caller (db.settings, caller.expired)

theorem moveEffect {move : Move} {next : PauseSettings × Caller} (h : db.move move caller = some next) :
    MoveEffect db move caller next := by
  unfold PauseDb.move at h
  split at h
  case h_1 startedAt =>
    split_ifs at h with hfree
    obtain rfl := Option.some.inj h
    rw [List.any_eq_true, not_exists] at hfree
    exact .lockShared startedAt fun caller hcaller =>
      Bool.eq_false_iff.2 fun hheld => hfree caller ⟨hcaller, hheld⟩
  case h_2 startedAt request =>
    split_ifs at h with hfree
    obtain rfl := Option.some.inj h
    rw [Bool.not_eq_true, List.any_eq_false] at hfree
    refine .lockExclusive startedAt request fun caller hcaller => ?_
    have hnot := hfree caller hcaller
    rwa [Bool.not_eq_true, Bool.or_eq_false_iff] at hnot
  case h_3 startedAt =>
    obtain rfl := Option.some.inj h
    split_ifs with hon
    · exact .read startedAt hon
    · exact .paused startedAt
  case h_4 startedAt isOpen =>
    obtain rfl := Option.some.inj h
    exact .request startedAt isOpen
  case h_5 startedAt isOpen beganAt =>
    obtain rfl := Option.some.inj h
    exact .respond startedAt isOpen beganAt
  case h_6 startedAt request =>
    obtain rfl := Option.some.inj h
    split
    case h_1 next _ => exact .write startedAt request next
    case h_2 => exact .reject startedAt request
  case h_7 startedAt isOpen =>
    obtain rfl := Option.some.inj h
    exact .close startedAt isOpen
  case h_8 startedAt request next =>
    obtain rfl := Option.some.inj h
    exact .commit startedAt request next
  case h_9 =>
    split_ifs at h with hoverdue
    obtain rfl := Option.some.inj h
    exact .expire caller hoverdue
  case h_10 => exact nomatch h

/-- Only the commit of a handler writes the settings. -/
theorem MoveEffect.settings {move : Move} {next : PauseSettings × Caller} (h : MoveEffect db move caller next) :
    next.1 = db.settings ∨
      ∃ startedAt request, move = .commit ∧ caller = .admin startedAt request (.written next.1) := by
  cases h with
  | commit startedAt request next => exact Or.inr ⟨startedAt, request, rfl, rfl⟩
  | _ => exact Or.inl rfl

/-! ## The invariant -/

/-- The exclusive lock excludes every other lock. -/
def Compatible (a b : Caller) : Prop :=
  (a.holdsExclusive = true → b.holdsShared = false ∧ b.holdsExclusive = false) ∧
    (b.holdsExclusive = true → a.holdsShared = false ∧ a.holdsExclusive = false)

/-- A sender with an open transaction behind its check sees the committed switch, and the transaction of an open
request outlives it. -/
def Caller.Ok (enabled : Bool) (now : ℕ) : Caller → Prop
  | .sender startedAt isOpen .checked =>
    (isOpen = true → enabled = true) ∧ (isOpen = false → startedAt + sendTimeoutMs ≤ now)
  | .sender startedAt isOpen (.requesting beganAt) =>
    isOpen = true ∧ enabled = true ∧ beganAt + requestTimeoutMs < startedAt + sendTimeoutMs ∧
      now ≤ beganAt + requestTimeoutMs
  | _ => True

structure PauseInv (db : PauseDb) : Prop where
  locks : Pairs Compatible db.callers
  callers : ∀ caller ∈ db.callers, caller.Ok db.settings.enabled db.now

/-- A request begins so early that its limit ends before the limit of its transaction. -/
def Prompt (db : PauseDb) : PauseAction → Prop
  | .act i .request => ∀ startedAt isOpen, db.callers[i]? = some (.sender startedAt isOpen .checked) →
    db.now + requestTimeoutMs < startedAt + sendTimeoutMs
  | _ => True

theorem Compatible.symm {a b : Caller} (h : Compatible a b) : Compatible b a := ⟨h.2, h.1⟩

/-- A caller that takes no lock stays compatible. -/
theorem Compatible.mono {a a' b : Caller} (h : Compatible a b)
    (hshared : a'.holdsShared = true → a.holdsShared = true)
    (hexclusive : a'.holdsExclusive = true → a.holdsExclusive = true) : Compatible a' b := by
  refine ⟨fun ha => h.1 (hexclusive ha), fun hb => ?_⟩
  obtain ⟨hs, he⟩ := h.2 hb
  exact ⟨Bool.eq_false_iff.2 fun hheld => Bool.eq_false_iff.1 hs (hshared hheld),
    Bool.eq_false_iff.2 fun hheld => Bool.eq_false_iff.1 he (hexclusive hheld)⟩

/-- The switch matters to the holders of the shared lock. -/
theorem Caller.Ok.of_not_shared {enabled' : Bool} (h : caller.Ok enabled now) (hnot : caller.holdsShared = false) :
    caller.Ok enabled' now := by
  unfold Caller.Ok at h ⊢
  split at h
  case h_1 startedAt isOpen =>
    cases isOpen with
    | true => exact nomatch hnot
    | false => exact ⟨nofun, h.2⟩
  case h_2 startedAt isOpen beganAt =>
    rw [h.1] at hnot
    exact nomatch hnot
  case h_3 => trivial

theorem Caller.Ok.tick {elapsed : ℕ} (h : caller.Ok enabled now) (hallows : caller.allows (now + elapsed) = true) :
    caller.Ok enabled (now + elapsed) := by
  unfold Caller.Ok at h ⊢
  split at h
  case h_1 => exact ⟨h.1, fun hclosed => (h.2 hclosed).trans (Nat.le_add_right _ _)⟩
  case h_2 => exact ⟨h.1, h.2.1, h.2.2.1, of_decide_eq_true hallows⟩
  case h_3 => trivial

/-- The transaction of an open request is not over its limit. -/
theorem Caller.Ok.expired (h : caller.Ok enabled now) (hoverdue : caller.overdue now = true) :
    caller.expired.Ok enabled now ∧ (caller.expired.holdsShared = true → caller.holdsShared = true) ∧
      (caller.expired.holdsExclusive = true → caller.holdsExclusive = true) := by
  cases caller with
  | done => exact ⟨trivial, id, id⟩
  | admin => exact ⟨trivial, nofun, nofun⟩
  | sender startedAt isOpen phase =>
    obtain ⟨rfl, hlimit⟩ := Bool.and_eq_true_iff.1 hoverdue
    have hover := of_decide_eq_true hlimit
    cases phase with
    | waiting => exact ⟨trivial, nofun, nofun⟩
    | locked => exact ⟨trivial, nofun, nofun⟩
    | checked => exact ⟨⟨nofun, fun _ => hover⟩, nofun, nofun⟩
    | requesting beganAt =>
      obtain ⟨-, -, hprompt, hopen⟩ := h
      exact absurd (hprompt.trans_le (hover.trans hopen)) (lt_irrefl _)
    | responded => exact ⟨trivial, nofun, nofun⟩

/-- What a move makes of its caller: a caller that is all right and compatible with the others. -/
theorem MoveEffect.mover {move : Move} {next : PauseSettings × Caller} (h : MoveEffect db move caller next)
    (hinv : PauseInv db) (hi : db.callers[i]? = some caller) (hprompt : Prompt db (.act i move)) :
    next.2.Ok next.1.enabled db.now ∧
      ∀ j other, j ≠ i → db.callers[j]? = some other → Compatible next.2 other := by
  have hok := hinv.callers caller (List.mem_of_getElem? hi)
  have hothers : ∀ j other, j ≠ i → db.callers[j]? = some other → Compatible caller other :=
    fun j other hne hj => hinv.locks i j caller other (Ne.symm hne) hi hj
  have hdone : ∀ j other, j ≠ i → db.callers[j]? = some other → Compatible .done other :=
    fun j other hne hj => (hothers j other hne hj).mono nofun nofun
  cases h with
  | lockShared startedAt hfree =>
    refine ⟨trivial, fun j other hne hj => ⟨nofun, fun hheld => ?_⟩⟩
    exact absurd hheld (Bool.eq_false_iff.1 (hfree other (List.mem_of_getElem? hj)))
  | lockExclusive startedAt request hfree =>
    refine ⟨trivial, fun j other hne hj => ?_⟩
    have hnot := hfree other (List.mem_of_getElem? hj)
    exact ⟨fun _ => hnot, fun hheld => absurd hheld (Bool.eq_false_iff.1 hnot.2)⟩
  | read startedAt hon => exact ⟨⟨fun _ => hon, nofun⟩, fun j other hne hj => (hothers j other hne hj).mono id nofun⟩
  | paused => exact ⟨trivial, hdone⟩
  | request startedAt isOpen =>
    have hlimit := hprompt startedAt isOpen hi
    have hopen : isOpen = true := by
      cases isOpen with
      | true => rfl
      | false => exact absurd (hlimit.trans_le (hok.2 rfl)) (Nat.not_lt.2 (Nat.le_add_right _ _))
    refine ⟨⟨hopen, hok.1 hopen, hlimit, Nat.le_add_right _ _⟩, fun j other hne hj => ?_⟩
    subst hopen
    exact (hothers j other hne hj).mono id nofun
  | respond startedAt isOpen beganAt =>
    obtain ⟨rfl, -⟩ := hok
    exact ⟨trivial, fun j other hne hj => (hothers j other hne hj).mono id nofun⟩
  | write => exact ⟨trivial, fun j other hne hj => (hothers j other hne hj).mono nofun id⟩
  | reject => exact ⟨trivial, hdone⟩
  | close => exact ⟨trivial, hdone⟩
  | commit => exact ⟨trivial, hdone⟩
  | expire _ hoverdue =>
    obtain ⟨hexpired, hshared, hexclusive⟩ := hok.expired hoverdue
    exact ⟨hexpired, fun j other hne hj => (hothers j other hne hj).mono hshared hexclusive⟩

/-- The others do not depend on what a move writes: a handler writes under the exclusive lock. -/
theorem MoveEffect.others {move : Move} {next : PauseSettings × Caller} (h : MoveEffect db move caller next)
    (hinv : PauseInv db) (hi : db.callers[i]? = some caller) :
    ∀ j other, j ≠ i → db.callers[j]? = some other → other.Ok next.1.enabled db.now := by
  intro j other hne hj
  have hok := hinv.callers other (List.mem_of_getElem? hj)
  rcases h.settings with hsame | ⟨startedAt, request, -, rfl⟩
  · rw [hsame]
    exact hok
  · have hcompatible := hinv.locks i j _ other (Ne.symm hne) hi hj
    exact hok.of_not_shared (hcompatible.1 rfl).1

theorem PauseInv.step {action : PauseAction} (h : PauseInv db) (hprompt : Prompt db action)
    (hstep : pauseStep db action = some db') : PauseInv db' := by
  cases action with
  | tick elapsed =>
    simp only [pauseStep] at hstep
    split_ifs at hstep with hallows
    obtain rfl := Option.some.inj hstep
    exact ⟨h.locks, fun caller hcaller => (h.callers caller hcaller).tick (List.all_eq_true.1 hallows caller hcaller)⟩
  | send =>
    obtain rfl := Option.some.inj hstep
    refine ⟨h.locks.append fun b _ => ⟨⟨nofun, fun _ => ⟨rfl, rfl⟩⟩, ⟨fun _ => ⟨rfl, rfl⟩, nofun⟩⟩,
      fun caller hcaller => ?_⟩
    rcases List.mem_append.1 hcaller with hold | hnew
    · exact h.callers caller hold
    · obtain rfl := List.mem_singleton.1 hnew
      trivial
  | administer request =>
    obtain rfl := Option.some.inj hstep
    refine ⟨h.locks.append fun b _ => ⟨⟨nofun, fun _ => ⟨rfl, rfl⟩⟩, ⟨fun _ => ⟨rfl, rfl⟩, nofun⟩⟩,
      fun caller hcaller => ?_⟩
    rcases List.mem_append.1 hcaller with hold | hnew
    · exact h.callers caller hold
    · obtain rfl := List.mem_singleton.1 hnew
      trivial
  | act i move =>
    obtain ⟨caller, hi, hmove⟩ := Option.bind_eq_some_iff.1 hstep
    obtain ⟨next, hnext, rfl⟩ := Option.map_eq_some_iff.1 hmove
    have heffect := moveEffect hnext
    obtain ⟨hok, hcompatible⟩ := heffect.mover h hi hprompt
    exact ⟨h.locks.set fun j b hne hj => ⟨hcompatible j b hne hj, (hcompatible j b hne hj).symm⟩, forall_mem_set hok (heffect.others h hi)⟩

/-! ## The pause -/

/-- The commit of a handler that sets the switch. -/
def Commits (enabled : Bool) (db : PauseDb) (action : PauseAction) : Prop :=
  ∃ i startedAt request next, action = .act i .commit ∧
    db.callers[i]? = some (.admin startedAt request (.written next)) ∧ next.enabled = enabled

/-- The switch is off, and only the commit of a resume turns it on. -/
theorem enabled_step {action : PauseAction} (hoff : db.settings.enabled = false)
    (hresume : ¬ Commits true db action) (hstep : pauseStep db action = some db') :
    db'.settings.enabled = false := by
  cases action with
  | tick elapsed =>
    simp only [pauseStep] at hstep
    split_ifs at hstep
    obtain rfl := Option.some.inj hstep
    exact hoff
  | send =>
    obtain rfl := Option.some.inj hstep
    exact hoff
  | administer request =>
    obtain rfl := Option.some.inj hstep
    exact hoff
  | act i move =>
    obtain ⟨caller, hi, hmove⟩ := Option.bind_eq_some_iff.1 hstep
    obtain ⟨next, hnext, rfl⟩ := Option.map_eq_some_iff.1 hmove
    rcases (moveEffect hnext).settings with hsame | ⟨startedAt, request, rfl, rfl⟩
    · exact (congrArg PauseSettings.enabled hsame).trans hoff
    · rw [← Bool.not_eq_true]
      exact fun hon => hresume ⟨i, startedAt, request, next.1, rfl, hi, hon⟩

/-- While the switch is off, no request is open. -/
theorem PauseInv.quiet (h : PauseInv db) (hoff : db.settings.enabled = false) :
    ∀ caller ∈ db.callers, caller.isRequesting = false := by
  intro caller hcaller
  have hok := h.callers caller hcaller
  unfold Caller.isRequesting
  split
  case h_1 =>
    rw [hoff] at hok
    exact nomatch hok.2.1
  case h_2 => rfl

theorem pauseInv_of_reachable {settings : PauseSettings}
    (h : Run.ReachableVia pauseStep Prompt { settings, now } db) : PauseInv db :=
  h.invariant ⟨pairs_nil, fun _ hcaller => absurd hcaller List.not_mem_nil⟩
    fun _ _ _ hinv hprompt hstep => hinv.step hprompt hstep

/-- **The pause is effective.** While every request begins promptly: from the commit of a pause, or of an edit that
turns the switch off, to the commit of the next resume no request to Telegram is open, so that the earlier ones
have ended and none begins. -/
theorem pause_effective {settings : PauseSettings} {action : PauseAction}
    (h : Run.ReachableVia pauseStep Prompt { settings, now } db) (hpause : Commits false db action)
    (hstep : pauseStep db action = some db')
    (hlater : Run.ReachableVia pauseStep (fun db action => Prompt db action ∧ ¬ Commits true db action) db' last) :
    ∀ caller ∈ last.callers, caller.isRequesting = false := by
  obtain ⟨i, startedAt, request, next, rfl, hi, hoff⟩ := hpause
  have hprompt : Prompt db (.act i .commit) := trivial
  have hinv := (pauseInv_of_reachable h).step hprompt hstep
  have hoff' : db'.settings.enabled = false := by
    obtain ⟨caller, hi', hmove⟩ := Option.bind_eq_some_iff.1 hstep
    rw [hi] at hi'
    obtain rfl := Option.some.inj hi'
    obtain ⟨next', hnext, rfl⟩ := Option.map_eq_some_iff.1 hmove
    obtain rfl := Option.some.inj hnext
    exact hoff
  have hlast := hlater.invariant (I := fun db => PauseInv db ∧ db.settings.enabled = false) ⟨hinv, hoff'⟩
    fun _ _ _ hinv hguard hstep => ⟨hinv.1.step hguard.1 hstep, enabled_step hinv.2 hguard.2 hstep⟩
  exact hlast.1.quiet hlast.2

namespace Sample

def enabledSettings : PauseSettings := ⟨true, 1⟩

/-- A message is sent, and a pause is about to be committed. -/
def pausing : List PauseAction :=
  [.send, .act 0 .lock, .act 0 .read, .act 0 .request, .tick 500, .act 0 .respond, .act 0 .commit,
    .administer .pause, .act 1 .lock, .act 1 .write]

/-- A message after the pause. -/
def afterPause : List PauseAction := [.send, .act 2 .lock, .act 2 .read]

/-- The first sender makes an edit wait, and the second one waits behind the edit for 11 seconds. Its request is
still open when its transaction ends after 20 seconds, and a pause gets the lock. -/
def waitingSender : List PauseAction :=
  [.send, .act 0 .lock, .act 0 .read, .act 0 .request, .tick 1000, .administer (.edit 1 true), .send,
    .tick 11000, .act 0 .respond, .act 0 .commit, .act 1 .lock, .act 1 .write, .act 1 .commit,
    .act 2 .lock, .act 2 .read, .act 2 .request, .tick 9000, .act 2 .expire, .administer .pause, .act 3 .lock,
    .act 3 .write]

/-- `Prompt` as a check. -/
def isPrompt (db : PauseDb) : PauseAction → Bool
  | .act i .request => db.callers[i]?.all fun caller =>
    match caller with
    | .sender startedAt _ .checked => db.now + requestTimeoutMs < startedAt + sendTimeoutMs
    | _ => true
  | _ => true

theorem prompt_of_isPrompt (db : PauseDb) (action : PauseAction) (h : isPrompt db action = true) :
    Prompt db action := by
  unfold Prompt
  split
  case h_1 i =>
    intro startedAt isOpen hi
    simpa [isPrompt, hi] using h
  case h_2 => trivial

/-- A prompt action that is no commit. -/
def isQuietly (db : PauseDb) (action : PauseAction) : Bool :=
  isPrompt db action && match action with
    | .act _ .commit => false
    | _ => true

theorem not_commits_of_isQuietly (db : PauseDb) (action : PauseAction) (h : isQuietly db action = true) :
    Prompt db action ∧ ¬ Commits true db action := by
  obtain ⟨hprompt, hnot⟩ := Bool.and_eq_true_iff.1 h
  refine ⟨prompt_of_isPrompt db action hprompt, ?_⟩
  rintro ⟨i, startedAt, request, next, rfl, -⟩
  exact nomatch hnot

end Sample

/-- A message before a pause, and one after it. -/
theorem pause_effective_sample : ∃ last : PauseDb, last.callers = [.done, .done, .done] ∧
    last.settings.version = 2 ∧ ∀ caller ∈ last.callers, caller.isRequesting = false := by
  have hpausing : (Run.runIf Sample.isPrompt pauseStep { settings := Sample.enabledSettings } Sample.pausing).any
      (· = ⟨⟨true, 1⟩, 500, [.done, .admin 500 .pause (.written ⟨false, 2⟩)]⟩) = true := by decide +kernel
  have hafter : (Run.runIf Sample.isQuietly pauseStep ⟨⟨false, 2⟩, 500, [.done, .done]⟩ Sample.afterPause).any
      (· = ⟨⟨false, 2⟩, 500, [.done, .done, .done]⟩) = true := by decide +kernel
  obtain ⟨db, hreach, hdb⟩ := Run.exists_of_runIf Sample.prompt_of_isPrompt hpausing
  obtain ⟨last, hlater, hlast⟩ := Run.exists_of_runIf Sample.not_commits_of_isQuietly hafter
  obtain rfl := of_decide_eq_true hdb
  obtain rfl := of_decide_eq_true hlast
  exact ⟨_, rfl, rfl, pause_effective hreach ⟨1, 500, .pause, ⟨false, 2⟩, rfl, rfl, rfl⟩ rfl hlater⟩

/-- A pause is committed while a request is open. -/
theorem pause_ineffective :
    ∃ db db', Run.Reachable pauseStep { settings := Sample.enabledSettings } db ∧
      Commits false db (.act 3 .commit) ∧ pauseStep db (.act 3 .commit) = some db' ∧
      ∃ caller ∈ db'.callers, caller.isRequesting = true := by
  have hrun : Run.run pauseStep { settings := Sample.enabledSettings } Sample.waitingSender = some _ := rfl
  refine ⟨_, _, Run.reachable_of_run hrun, ⟨3, 21000, .pause, ⟨false, 3⟩, rfl, rfl, rfl⟩, rfl,
    .sender 1000 false (.requesting 12000), ?_, rfl⟩
  decide +kernel

end AmoAnalytics.Platform
