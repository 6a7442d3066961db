import AmoAnalytics.Platform.GroupMessages

/-!
# At most one message to a group

A look-up is undisturbed when the earlier messages of the event to the chat have the key that is looked up, and
no other task is on its way to the chat. As long as every look-up is undisturbed, or finds a delivery, a chat
receives at most one message of an event. After a look-up that is neither, it can receive a second one.
-/

namespace AmoAnalytics.Platform

variable {db db' : GroupDb} {i j : ℕ} {task other : GroupTask} {message : GroupMessage} {eventKey chatId : String}
  {key : GroupKey}

/-! ## The condition -/

/-- The tasks of one event and one chat. -/
def GroupTask.Same (task other : GroupTask) : Prop :=
  other.eventKey = task.eventKey ∧ other.chatId = task.chatId

/-- The messages of the event and the chat of a task. -/
def GroupTask.Owns (task : GroupTask) (message : GroupMessage) : Prop :=
  message.eventKey = task.eventKey ∧ message.chatId = task.chatId

/-- A task that is sending, or has sent its message and not recorded it. -/
def GroupTask.inFlight (task : GroupTask) : Bool :=
  match task.phase with
  | .sending | .recording _ true => true
  | _ => false

/-- The earlier messages have the key of the task, and no other task is on its way to the chat. -/
structure Undisturbed (db : GroupDb) (i : ℕ) (task : GroupTask) : Prop where
  key : ∀ message ∈ db.messages, task.Owns message → message.key = task.key
  alone : ∀ (j : ℕ) (other : GroupTask), db.tasks[j]? = some other → j ≠ i → task.Same other → other.inFlight = false

/-- A look-up finds a delivery or is undisturbed. -/
def Steady (db : GroupDb) : GroupAction → Prop
  | .check i => ∀ task, db.tasks[i]? = some task → db.recorded task.key = true ∨ Undisturbed db i task
  | _ => True

/-! ## One step -/

/-- What a step does to the tasks, the deliveries and the messages. -/
inductive GroupEffect (db : GroupDb) : GroupAction → GroupDb → Prop
  | configure (groups : List TelegramChat) : GroupEffect db (.configure groups) { db with groups }
  | token (botToken : Bool) : GroupEffect db (.token botToken) { db with botToken }
  | tick (eventKey : String) (selectedGroupIds : Option (List String)) :
      GroupEffect db (.tick eventKey selectedGroupIds)
        (db.sendMessageToActiveGroups eventKey selectedGroupIds)
  | check (i : ℕ) (task : GroupTask) (h : db.tasks[i]? = some task) (hphase : task.phase = .checking) :
      GroupEffect db (.check i) (db.check i task)
  | send (i : ℕ) (task : GroupTask) (result : SendResult) (h : db.tasks[i]? = some task)
      (hphase : task.phase = .sending) : GroupEffect db (.send i result) (db.send i task result)
  | record (i : ℕ) (task : GroupTask) (status : DeliveryStatus) (received : Bool) (h : db.tasks[i]? = some task)
      (hphase : task.phase = .recording status received) :
      GroupEffect db (.record i) (db.recordDelivery i task status)

theorem groupEffect {action : GroupAction} (h : groupStep db action = some db') :
    GroupEffect db action db' := by
  cases action with
  | configure groups =>
    obtain rfl := Option.some.inj h
    exact .configure groups
  | token botToken =>
    obtain rfl := Option.some.inj h
    exact .token botToken
  | tick eventKey selectedGroupIds =>
    obtain rfl := Option.some.inj h
    exact .tick eventKey selectedGroupIds
  | check i =>
    obtain ⟨task, htask, hstep⟩ := Option.bind_eq_some_iff.1 h
    split_ifs at hstep with hphase
    obtain rfl := Option.some.inj hstep
    exact .check i task htask hphase
  | send i result =>
    obtain ⟨task, htask, hstep⟩ := Option.bind_eq_some_iff.1 h
    split_ifs at hstep with hphase
    obtain rfl := Option.some.inj hstep
    exact .send i task result htask hphase
  | record i =>
    obtain ⟨task, htask, hstep⟩ := Option.bind_eq_some_iff.1 h
    split at hstep
    case h_1 status received hphase =>
      obtain rfl := Option.some.inj hstep
      exact .record i task status received htask hphase
    case h_2 => exact nomatch hstep

/-- A task after the task `i` has gone on: itself, or the task `i` in its new phase. -/
theorem getElem?_advance {phase : GroupPhase} (h : (db.advance i task phase).tasks[j]? = some other) :
    (j = i ∧ other = { task with phase }) ∨ (j ≠ i ∧ db.tasks[j]? = some other) := by
  by_cases hj : j = i
  · subst hj
    obtain ⟨-, rfl⟩ := List.getElem?_eq_some_iff.1 h
    exact Or.inl ⟨rfl, List.getElem_set_self _⟩
  · refine Or.inr ⟨hj, ?_⟩
    rw [← h]
    exact (List.getElem?_set_ne (Ne.symm hj)).symm

theorem getElem?_advance_self {phase : GroupPhase} (h : db.tasks[i]? = some task) :
    (db.advance i task phase).tasks[i]? = some { task with phase } := by
  obtain ⟨hlt, -⟩ := List.getElem?_eq_some_iff.1 h
  exact List.getElem?_set_self hlt

theorem getElem?_advance_of_ne {phase : GroupPhase} (h : j ≠ i) :
    (db.advance i task phase).tasks[j]? = db.tasks[j]? := List.getElem?_set_ne h.symm

/-- A task after a tick: an earlier one, or a new one that has sent nothing. -/
theorem getElem?_tick {selectedGroupIds : Option (List String)}
    (h : (db.sendMessageToActiveGroups eventKey selectedGroupIds).tasks[j]? = some task) :
    db.tasks[j]? = some task ∨ (db.tasks.length ≤ j ∧ task.inFlight = false) := by
  unfold GroupDb.sendMessageToActiveGroups at h
  dsimp only at h
  rcases Nat.lt_or_ge j db.tasks.length with hlt | hge
  · exact Or.inl (by rwa [List.getElem?_append_left hlt] at h)
  · rw [List.getElem?_append_right hge] at h
    obtain ⟨p, -, rfl⟩ := List.mem_map.1 (List.mem_of_getElem? h)
    refine Or.inr ⟨hge, ?_⟩
    unfold GroupTask.inFlight
    cases db.botToken <;> rfl

/-! ## The invariant -/

/-- A message has been recorded, or its task is about to record it. -/
def Accounted (db : GroupDb) (message : GroupMessage) : Prop :=
  db.recorded message.key = true ∨ ∃ (j : ℕ) (task : GroupTask) (status : DeliveryStatus),
    db.tasks[j]? = some task ∧ task.Owns message ∧ task.key = message.key ∧
      task.phase = .recording status true

/-- A task that is not recording a message may go on. -/
theorem Accounted.advance {phase : GroupPhase} (h : Accounted db message) (hi : db.tasks[i]? = some task)
    (hphase : ∀ status, task.phase ≠ .recording status true) : Accounted (db.advance i task phase) message := by
  refine h.imp_right ?_
  rintro ⟨j, other, status, hj, howns, hkey, hother⟩
  have hne : j ≠ i := by
    rintro rfl
    rw [hi] at hj
    cases hj
    exact hphase status hother
  exact ⟨j, other, status, (getElem?_advance_of_ne hne).trans hj, howns, hkey, hother⟩

/-- Every message is accounted for, and a task that has sent one has been heard. -/
structure GroupInv (db : GroupDb) : Prop where
  accounted : ∀ message ∈ db.messages, Accounted db message
  kept : ∀ (j : ℕ) (task : GroupTask) (status : DeliveryStatus), db.tasks[j]? = some task →
    task.phase = .recording status true → ∃ message ∈ db.messages, task.Owns message

/-- What holds while the look-ups are steady. -/
structure SteadyInv (db : GroupDb) : Prop where
  once : ∀ eventKey chatId, db.received eventKey chatId ≤ 1
  sending : ∀ (j : ℕ) (task : GroupTask), db.tasks[j]? = some task → task.phase = .sending →
    (∀ message ∈ db.messages, ¬ task.Owns message) ∧
      ∀ (k : ℕ) (other : GroupTask), db.tasks[k]? = some other → k ≠ j → task.Same other → other.phase ≠ .sending

theorem recorded_recordDelivery {status : DeliveryStatus} (h : db.recorded key = true ∨ key = task.key) :
    (db.recordDelivery i task status).recorded key = true := by
  unfold GroupDb.recordDelivery GroupDb.recorded
  dsimp only
  rcases h with h | rfl
  · split_ifs
    · exact h
    · rw [List.any_append, Bool.or_eq_true]
      exact Or.inl h
  · split_ifs with hrecorded
    · exact hrecorded
    · simp

theorem GroupInv.step {action : GroupAction} (h : GroupInv db) (hstep : groupStep db action = some db') :
    GroupInv db' := by
  cases groupEffect hstep with
  | configure => exact ⟨h.accounted, h.kept⟩
  | token => exact ⟨h.accounted, h.kept⟩
  | tick e selected =>
    constructor
    · intro message hmessage
      refine (h.accounted message hmessage).imp_right ?_
      rintro ⟨j, task, status, hj, howns, hkey, hphase⟩
      obtain ⟨hlt, -⟩ := List.getElem?_eq_some_iff.1 hj
      refine ⟨j, task, status, ?_, howns, hkey, hphase⟩
      exact (List.getElem?_append_left hlt).trans hj
    · intro j task status hj hphase
      rcases getElem?_tick hj with hold | ⟨-, hnot⟩
      · exact h.kept j task status hold hphase
      · simp [GroupTask.inFlight, hphase] at hnot
  | check i task hi hphase =>
    constructor
    · intro message hmessage
      exact (h.accounted message hmessage).advance hi fun status hrecording =>
        nomatch hphase.symm.trans hrecording
    · intro j other status hj hother
      rcases getElem?_advance hj with ⟨-, rfl⟩ | ⟨-, hold⟩
      · dsimp only at hother
        split_ifs at hother
      · exact h.kept j other status hold hother
  | send i task result hi hphase =>
    have hmem : ∀ message ∈ db.messages, message ∈ (db.send i task result).messages := by
      intro message hmessage
      unfold GroupDb.send
      dsimp only
      split_ifs
      · exact List.mem_append_left _ hmessage
      · exact hmessage
    constructor
    · intro message hmessage
      have hcases : message ∈ db.messages ∨
          (result.received = true ∧ message = ⟨task.eventKey, task.chatId, task.key⟩) := by
        unfold GroupDb.send at hmessage
        dsimp only at hmessage
        split_ifs at hmessage with hreceived
        · exact (List.mem_append.1 hmessage).imp_right fun hnew => ⟨hreceived, List.mem_singleton.1 hnew⟩
        · exact Or.inl hmessage
      rcases hcases with hold | ⟨hreceived, rfl⟩
      · exact (h.accounted message hold).advance hi fun status hrecording =>
          nomatch hphase.symm.trans hrecording
      · exact Or.inr ⟨i, _, result.status, getElem?_advance_self hi, ⟨rfl, rfl⟩, rfl, by rw [hreceived]⟩
    · intro j other status hj hother
      rcases getElem?_advance hj with ⟨-, rfl⟩ | ⟨-, hold⟩
      · have hreceived : result.received = true := (GroupPhase.recording.inj hother).2
        refine ⟨⟨task.eventKey, task.chatId, task.key⟩, ?_, rfl, rfl⟩
        unfold GroupDb.send
        rw [if_pos hreceived]
        exact List.mem_append_right _ (List.mem_singleton_self _)
      · obtain ⟨message, hmessage, howns⟩ := h.kept j other status hold hother
        exact ⟨message, hmem message hmessage, howns⟩
  | record i task status received hi hphase =>
    constructor
    · intro message hmessage
      rcases h.accounted message hmessage with hrecorded | ⟨j, other, status', hj, howns, hkey, hother⟩
      · exact Or.inl (recorded_recordDelivery (Or.inl hrecorded))
      · by_cases hne : j = i
        · subst hne
          rw [hi] at hj
          cases hj
          exact Or.inl (recorded_recordDelivery (Or.inr hkey.symm))
        · exact Or.inr ⟨j, other, status', (getElem?_advance_of_ne hne).trans hj, howns, hkey, hother⟩
    · intro j other status' hj hother
      rcases getElem?_advance hj with ⟨-, rfl⟩ | ⟨-, hold⟩
      · exact nomatch hother
      · exact h.kept j other status' hold hother

theorem received_eq_zero_iff : db.received task.eventKey task.chatId = 0 ↔
    ∀ message ∈ db.messages, ¬ task.Owns message := by
  rw [GroupDb.received, List.countP_eq_zero]
  refine forall₂_congr fun message _ => ?_
  simp [GroupTask.Owns]

/-- The messages after a request. -/
theorem received_send {result : SendResult} : (db.send i task result).received eventKey chatId =
    db.received eventKey chatId +
      if result.received = true ∧ task.eventKey = eventKey ∧ task.chatId = chatId then 1 else 0 := by
  unfold GroupDb.send GroupDb.received
  cases hreceived : result.received with
  | false => simp
  | true => simp [List.countP_append, List.countP_singleton]

/-! ## Steady look-ups -/

/-- After an undisturbed look-up that finds nothing, the chat has no message of the event. -/
theorem Undisturbed.not_owns (h : Undisturbed db i task) (hinv : GroupInv db)
    (hi : db.tasks[i]? = some task) (hphase : task.phase = .checking) (hnot : db.recorded task.key = false)
    (hmessage : message ∈ db.messages) : ¬ task.Owns message := by
  intro howns
  have hkey := h.key message hmessage howns
  rcases hinv.accounted message hmessage with hrecorded | ⟨j, other, status, hj, hother, -, hrecording⟩
  · rw [hkey, hnot] at hrecorded
    exact nomatch hrecorded
  · have hne : j ≠ i := by
      rintro rfl
      rw [hi] at hj
      cases hj
      exact nomatch hphase.symm.trans hrecording
    have hsame : task.Same other := ⟨hother.1.symm.trans howns.1, hother.2.symm.trans howns.2⟩
    have hflight := h.alone j other hj hne hsame
    simp [GroupTask.inFlight, hrecording] at hflight

theorem SteadyInv.check (h : SteadyInv db) (hinv : GroupInv db) (hi : db.tasks[i]? = some task)
    (hphase : task.phase = .checking) (hsteady : db.recorded task.key = true ∨ Undisturbed db i task) :
    SteadyInv (db.check i task) := by
  refine ⟨h.once, fun j other hj hother => ?_⟩
  rcases getElem?_advance hj with ⟨rfl, rfl⟩ | ⟨hne, hold⟩
  · -- The task itself goes on to send.
    dsimp only at hother
    split_ifs at hother with hrecorded
    have hundisturbed := hsteady.resolve_left hrecorded
    refine ⟨fun message hmessage => hundisturbed.not_owns hinv hi hphase (Bool.eq_false_iff.2 hrecorded) hmessage,
      fun k another hk hkj hsame hsending => ?_⟩
    rcases getElem?_advance hk with ⟨rfl, -⟩ | ⟨-, hk⟩
    · exact hkj rfl
    · have hflight := hundisturbed.alone k another hk hkj hsame
      simp [GroupTask.inFlight, hsending] at hflight
  · obtain ⟨hmessages, hothers⟩ := h.sending j other hold hother
    refine ⟨hmessages, fun k another hk hkj hsame hsending => ?_⟩
    rcases getElem?_advance hk with ⟨rfl, rfl⟩ | ⟨-, hk⟩
    · dsimp only at hsending
      split_ifs at hsending with hrecorded
      have hflight := (hsteady.resolve_left hrecorded).alone j other hold hne ⟨hsame.1.symm, hsame.2.symm⟩
      simp [GroupTask.inFlight, hother] at hflight
    · exact hothers k another hk hkj hsame hsending

theorem SteadyInv.send (h : SteadyInv db) {result : SendResult} (hi : db.tasks[i]? = some task)
    (hphase : task.phase = .sending) : SteadyInv (db.send i task result) := by
  obtain ⟨hnone, halone⟩ := h.sending i task hi hphase
  refine ⟨fun e c => ?_, fun j other hj hother => ?_⟩
  · rw [received_send]
    split_ifs with hreceived
    · obtain ⟨-, rfl, rfl⟩ := hreceived
      rw [received_eq_zero_iff.2 hnone]
    · exact h.once e c
  · rcases getElem?_advance hj with ⟨rfl, rfl⟩ | ⟨hne, hold⟩
    · exact nomatch hother
    · obtain ⟨hmessages, hothers⟩ := h.sending j other hold hother
      constructor
      · rw [← received_eq_zero_iff, received_send, if_neg, Nat.add_zero]
        · exact received_eq_zero_iff.2 hmessages
        · rintro ⟨-, hevent, hchat⟩
          exact halone j other hold hne ⟨hevent.symm, hchat.symm⟩ hother
      · intro k another hk hkj hsame hsending
        rcases getElem?_advance hk with ⟨rfl, rfl⟩ | ⟨-, hk⟩
        · exact nomatch hsending
        · exact hothers k another hk hkj hsame hsending

/-- A steady step keeps the chats at one message. -/
theorem SteadyInv.step {action : GroupAction} (h : SteadyInv db) (hinv : GroupInv db)
    (hsteady : Steady db action) (hstep : groupStep db action = some db') : SteadyInv db' := by
  cases groupEffect hstep with
  | configure => exact ⟨h.once, h.sending⟩
  | token => exact ⟨h.once, h.sending⟩
  | tick e selected =>
    have hnew : ∀ (j : ℕ) (task : GroupTask), (db.sendMessageToActiveGroups e selected).tasks[j]? = some task →
        task.phase = .sending → db.tasks[j]? = some task := by
      intro j task hj hphase
      refine (getElem?_tick hj).resolve_right fun hnot => ?_
      simp [GroupTask.inFlight, hphase] at hnot
    refine ⟨h.once, fun j task hj hphase => ?_⟩
    obtain ⟨hmessages, hothers⟩ := h.sending j task (hnew j task hj hphase) hphase
    exact ⟨hmessages, fun k other hk hkj hsame hsending =>
      hothers k other (hnew k other hk hsending) hkj hsame hsending⟩
  | check i task hi hphase => exact h.check hinv hi hphase (hsteady task hi)
  | send i task result hi hphase => exact h.send hi hphase
  | record i task status received hi hphase =>
    refine ⟨h.once, fun j other hj hother => ?_⟩
    rcases getElem?_advance hj with ⟨-, rfl⟩ | ⟨-, hold⟩
    · exact nomatch hother
    · obtain ⟨hmessages, hothers⟩ := h.sending j other hold hother
      refine ⟨hmessages, fun k another hk hkj hsame hsending => ?_⟩
      rcases getElem?_advance hk with ⟨-, rfl⟩ | ⟨-, hk⟩
      · exact nomatch hsending
      · exact hothers k another hk hkj hsame hsending

/-! ## The other look-ups -/

/-- A request is a step. -/
theorem step_send {result : SendResult} (hi : db.tasks[i]? = some task) (hphase : task.phase = .sending) :
    groupStep db (.send i result) = some (db.send i task result) := by
  simp [groupStep, hi, hphase]

theorem reachable_send (result : SendResult) (hi : db.tasks[i]? = some task) (hphase : task.phase = .sending) :
    Run.ReachableVia groupStep Steady db (db.send i task result) :=
  Run.ReachableVia.single (a := .send i result) True.intro (step_send hi hphase)

/-- After a look-up that is not steady the chat can receive a second message. -/
theorem second_message (hinv : GroupInv db) (hi : db.tasks[i]? = some task)
    (hnot : db.recorded task.key = false) (hdisturbed : ¬ Undisturbed db i task) :
    ∃ db', Run.ReachableVia groupStep Steady (db.check i task) db' ∧
      1 < db'.received task.eventKey task.chatId := by
  have hsending : db.check i task = db.advance i task .sending := by
    rw [GroupDb.check, hnot]
    rfl
  rw [hsending]
  have hself : (db.advance i task .sending).tasks[i]? = some { task with phase := .sending } :=
    getElem?_advance_self hi
  have hone : ∀ {db : GroupDb} {i : ℕ} {other : GroupTask}, task.Same other →
      (db.send i other .sent).received task.eventKey task.chatId =
        db.received task.eventKey task.chatId + 1 := by
    intro db i other hsame
    rw [received_send, if_pos ⟨rfl, hsame⟩]
  have hown : task.Same { task with phase := .sending } := ⟨rfl, rfl⟩
  by_cases hheard : ∃ message ∈ db.messages, task.Owns message
  · -- The chat already has a message, and the task sends another one.
    refine ⟨_, reachable_send .sent hself rfl, ?_⟩
    rw [hone hown]
    refine Nat.succ_lt_succ (Nat.pos_of_ne_zero fun hzero => ?_)
    obtain ⟨message, hmessage, howns⟩ := hheard
    exact received_eq_zero_iff.1 hzero message hmessage howns
  · -- Another task is sending, and both send.
    have hother : ∃ (j : ℕ) (other : GroupTask), db.tasks[j]? = some other ∧ j ≠ i ∧ task.Same other ∧
        other.inFlight = true := by
      by_contra hnone
      refine hdisturbed ⟨fun message hmessage howns => absurd ⟨message, hmessage, howns⟩ hheard,
        fun j other hj hne hsame => ?_⟩
      rw [Bool.eq_false_iff]
      exact fun hflight => hnone ⟨j, other, hj, hne, hsame, hflight⟩
    obtain ⟨j, other, hj, hne, hsame, hflight⟩ := hother
    have hphase : other.phase = .sending := by
      unfold GroupTask.inFlight at hflight
      split at hflight
      case h_1 hphase => exact hphase
      case h_2 status hphase =>
        obtain ⟨message, hmessage, howns⟩ := hinv.kept j other status hj hphase
        exact absurd ⟨message, hmessage, howns.1.trans hsame.1, howns.2.trans hsame.2⟩ hheard
      case h_3 => exact nomatch hflight
    have hj' : (db.advance i task .sending).tasks[j]? = some other :=
      (getElem?_advance_of_ne hne).trans hj
    have hi' : ((db.advance i task .sending).send j other .sent).tasks[i]? =
        some { task with phase := .sending } := (getElem?_advance_of_ne (Ne.symm hne)).trans hself
    refine ⟨_, (reachable_send .sent hj' hphase).trans (reachable_send .sent hi' rfl), ?_⟩
    rw [hone hown, hone hsame]
    exact Nat.succ_lt_succ (Nat.succ_pos _)

/-- **At most one message to a group.** While every look-up is steady, no chat receives a second message of an
event; and after any look-up that is not, the chat of the task can. -/
theorem group_at_most_once {groups : List TelegramChat} {botToken : Bool}
    (h : Run.ReachableVia groupStep Steady { groups, botToken } db) :
    (∀ eventKey chatId, db.received eventKey chatId ≤ 1) ∧
      ∀ i db', groupStep db (.check i) = some db' → ¬ Steady db (.check i) →
        ∃ task, db.tasks[i]? = some task ∧ ∃ last, Run.ReachableVia groupStep Steady db' last ∧
          1 < last.received task.eventKey task.chatId := by
  have hinv : GroupInv db ∧ SteadyInv db := by
    refine h.invariant (I := fun db => GroupInv db ∧ SteadyInv db) ⟨⟨?_, ?_⟩, ?_, ?_⟩ ?_
    · exact fun _ hmessage => absurd hmessage List.not_mem_nil
    · exact fun _ _ _ hj => nomatch hj
    · exact fun _ _ => Nat.zero_le _
    · exact fun _ _ hj => nomatch hj
    · exact fun _ _ _ hinv hsteady hstep => ⟨hinv.1.step hstep, hinv.2.step hinv.1 hsteady hstep⟩
  refine ⟨hinv.2.once, fun i db' hstep hnot => ?_⟩
  cases groupEffect hstep with
  | check i task hi hphase =>
    have hsplit : ¬ (db.recorded task.key = true ∨ Undisturbed db i task) := by
      refine fun hsteady => hnot fun other hother => ?_
      rw [hi] at hother
      cases hother
      exact hsteady
    rw [not_or, Bool.not_eq_true] at hsplit
    exact ⟨task, hi, second_message hinv.1 hi hsplit.1 hsplit.2⟩

/-- The chat is active. -/
def GroupDb.configured (db : GroupDb) (chatId : String) : Bool := (db.groupChats none).any (·.id = chatId)

namespace Sample

def sales : TelegramChat := ⟨"sales", true⟩

def support : TelegramChat := ⟨"support", true⟩

/-- One event is found in two ticks, and a second group is linked between them. -/
def linked : List GroupAction :=
  [.tick "payment" none, .check 0, .send 0 .sent, .record 0, .configure [support, sales],
    .tick "payment" none, .check 2, .send 2 .sent]

/-- Two workers find one event at once. -/
def concurrent : List GroupAction :=
  [.tick "payment" none, .tick "payment" none, .check 0, .check 1, .send 0 .sent, .send 1 .sent]

/-- One event is found in two ticks. -/
def repeated : List GroupAction :=
  [.tick "payment" none, .check 0, .send 0 .sent, .record 0, .tick "payment" none, .check 1]

end Sample

/-- The chat of a repeated event. -/
theorem group_at_most_once_sample :
    ∃ db, Run.ReachableVia groupStep Steady { groups := [Sample.sales], botToken := true } db ∧
      db.received "payment" "sales" ≤ 1 ∧ db.messages.length = 1 := by
  have hsteady : Run.Along groupStep Steady { groups := [Sample.sales], botToken := true } Sample.repeated := by
    refine ⟨True.intro, ?_⟩
    rintro _ ⟨⟩
    refine ⟨fun task htask => Or.inr ⟨fun _ hmessage => absurd hmessage List.not_mem_nil, ?_⟩, ?_⟩
    · rintro (_ | j) other hj hne
      · exact absurd rfl hne
      · exact nomatch hj
    rintro _ ⟨⟩
    refine ⟨True.intro, ?_⟩
    rintro _ ⟨⟩
    refine ⟨True.intro, ?_⟩
    rintro _ ⟨⟩
    refine ⟨True.intro, ?_⟩
    rintro _ ⟨⟩
    refine ⟨?_, fun _ _ => True.intro⟩
    rintro task ⟨⟩
    exact Or.inl rfl
  have hrun : Run.run groupStep { groups := [Sample.sales], botToken := true } Sample.repeated = some _ := rfl
  have hreach : Run.ReachableVia groupStep Steady _ _ := ⟨_, hsteady, hrun⟩
  exact ⟨_, hreach, (group_at_most_once hreach).1 _ _, rfl⟩

/-- A chat that is active at every step receives two messages of one event: after another chat was linked, and
from two workers at once. -/
theorem group_message_repeated :
    (Run.runIf (fun db _ => db.configured "sales") groupStep { groups := [Sample.sales], botToken := true }
        Sample.linked).any (fun db => db.received "payment" "sales" = 2) = true ∧
      (Run.runIf (fun db _ => db.configured "sales") groupStep { groups := [Sample.sales], botToken := true }
        Sample.concurrent).any (fun db => db.received "payment" "sales" = 2) = true := by
  decide +kernel

end AmoAnalytics.Platform
