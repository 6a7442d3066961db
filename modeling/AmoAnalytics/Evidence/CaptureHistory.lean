import AmoAnalytics.Evidence.CaptureQueue
import AmoAnalytics.Lib.Actors

/-!
# The history of evidence captures

What a move of a call is (`MoveEffect`), and what holds of every run: a row counts its claims since the last manual
retry, and a ready row has behind it a claim, a check, a capture and a second check of one call.
-/

namespace AmoAnalytics.Evidence

open Table Actors

variable {env : CaptureEnv} {db db' last : EvidenceDb} {i j : ℕ} {phase : CallPhase} {job row : EvidenceRow}
  {lease : Lease} {result : Option CaptureResult} {stage : CheckStage} {id : String} {history : List Event}
  {action : EvidenceAction} {move : Move} {next : List EvidenceRow × List Event × CallPhase}

/-! ## Moves -/

/-- A statement of a check: it fails, or it goes on with what it has read. -/
inductive CheckEffect (env : CaptureEnv) (db : EvidenceDb) (i : ℕ) (job : EvidenceRow) (lease : Lease)
    (result : Option CaptureResult) : CheckStage → List Event × CallPhase → Prop
  | mismatch (stage : CheckStage) : CheckEffect env db i job lease result stage ([], mismatch job lease result)
  | ids (manager : String) (hmanager : job.observation.managerId.bind env.userExternalId = some manager) :
    CheckEffect env db i job lease result .ids ([], .checking job lease result
      (.deal manager (job.observation.groupId.bind env.groupExternalId)))
  | deal (manager : String) (group : Option String)
    (howner : db.crm.responsible job.observation.dealExternalId = some manager) :
    CheckEffect env db i job lease result (.deal manager group)
      ([.ownerMatched i db.crm], .checking job lease result (.user manager group))
  | user (manager : String) (group : Option String) (hgroup : db.crm.groupOf manager = some group) :
    CheckEffect env db i job lease result (.user manager group) ([.groupMatched i db.crm], passed job lease result)

theorem checkEffect {checked : List Event × CallPhase} (h : db.check env i job lease result stage = some checked) :
    CheckEffect env db i job lease result stage checked := by
  cases stage with
  | ids =>
    simp only [EvidenceDb.check] at h
    split at h
    · obtain rfl := Option.some.inj h
      exact .mismatch _
    · next manager hmanager =>
      split_ifs at h
      · obtain rfl := Option.some.inj h
        exact .mismatch _
      · obtain rfl := Option.some.inj h
        exact .mismatch _
      · obtain rfl := Option.some.inj h
        exact .ids manager hmanager
  | deal manager group =>
    simp only [EvidenceDb.check] at h
    split_ifs at h with howner
    · obtain rfl := Option.some.inj h
      exact .deal manager group howner
    · obtain rfl := Option.some.inj h
      exact .mismatch _
  | user manager group =>
    simp only [EvidenceDb.check, Option.map_eq_some_iff] at h
    obtain ⟨current, hcurrent, rfl⟩ := h
    split_ifs with hsame
    · exact .user manager group (hsame ▸ hcurrent)
    · exact .mismatch _

/-- What a move of a call does to the rows, the history and the phase. -/
inductive MoveEffect (env : CaptureEnv) (db : EvidenceDb) (i : ℕ) :
    Move → CallPhase → List EvidenceRow × List Event × CallPhase → Prop
  | begin : MoveEffect env db i .begin .started (db.rows, [], .recovering db.now)
  | recover (now readAt : ℕ) : MoveEffect env db i (.recover readAt) (.recovering now)
      (updateWhere (EvidenceRow.stale readAt) (EvidenceRow.interrupt now) db.rows,
        [.recovered ((db.rows.filter (EvidenceRow.stale readAt)).map EvidenceRow.id)], .searching now)
  | find (now : ℕ) (job : EvidenceRow) (hmem : job ∈ db.rows) (hdue : job.due now = true) :
    MoveEffect env db i (.find job.id) (.searching now) (db.rows, [], .found job)
  | nothing (now : ℕ) : MoveEffect env db i .nothing (.searching now) (db.rows, [], .done)
  | stamp (job : EvidenceRow) : MoveEffect env db i .stamp (.found job) (db.rows, [], .claiming job db.now)
  | claim (job : EvidenceRow) (claimedAt : ℕ) (row : EvidenceRow) (hmem : row ∈ db.rows)
    (hsame : job.same row = true) : MoveEffect env db i .claim (.claiming job claimedAt)
      (updateWhere job.same (EvidenceRow.claim claimedAt) db.rows, [.claimed i job.id],
        .checking job ⟨job.id, claimedAt, job.attempts + 1⟩ none .ids)
  | miss (job : EvidenceRow) (claimedAt : ℕ) :
    MoveEffect env db i .claim (.claiming job claimedAt) (db.rows, [], .done)
  | check (job : EvidenceRow) (lease : Lease) (result : Option CaptureResult) (stage : CheckStage)
    (checked : List Event × CallPhase) (heffect : CheckEffect env db i job lease result stage checked) :
    MoveEffect env db i .check (.checking job lease result stage) (db.rows, checked.1, checked.2)
  | captured (job : EvidenceRow) (lease : Lease) (result : CaptureResult) (hready : result.status = .ready) :
    MoveEffect env db i (.capture result) (.capturing job lease)
      (db.rows, [.captured i], .checking job lease (some result) .ids)
  | failed (job : EvidenceRow) (lease : Lease) (result : CaptureResult) (nextAttemptAt : Option ℕ)
    (hready : result.status ≠ .ready) : MoveEffect env db i (.capture result) (.capturing job lease)
      (db.rows, [.captured i], .writing job lease (.captured result nextAttemptAt) false)
  | fail (phase : CallPhase) (job : EvidenceRow) (lease : Lease) (hphase : phase.job = some job)
    (hlease : phase.lease = some lease) : MoveEffect env db i .fail phase
      (db.rows, [], .writing job lease (.error (lease.retryAt db.now) captureFailed) true)
  | write (job : EvidenceRow) (lease : Lease) (outcome : Outcome) (caught : Bool) (row : EvidenceRow)
    (hmem : row ∈ db.rows) (hholds : lease.holds row = true) :
    MoveEffect env db i .write (.writing job lease outcome caught)
      (updateWhere lease.holds outcome.write db.rows, [.wrote i job.id], .done)
  | lost (job : EvidenceRow) (lease : Lease) (outcome : Outcome) (caught : Bool)
    (hnone : ∀ row ∈ db.rows, lease.holds row = false) :
    MoveEffect env db i .write (.writing job lease outcome caught) (db.rows, [], .done)
  | reset (id : String) (status : EvidenceStatus) (row : EvidenceRow) (hmem : row ∈ db.rows)
    (hsame : row.id = id ∧ row.status = status) : MoveEffect env db i .reset (.retrying id status)
      (updateWhere (fun row => row.id = id ∧ row.status = status) EvidenceRow.reset db.rows, [.reset [id]], .done)
  | outdated (id : String) (status : EvidenceStatus) :
    MoveEffect env db i .reset (.retrying id status) (db.rows, [], .done)

theorem moveEffect (h : db.move env i move phase = some next) : MoveEffect env db i move phase next := by
  unfold EvidenceDb.move at h
  split at h
  case h_1 =>
    obtain rfl := Option.some.inj h
    exact .begin
  case h_2 readAt now =>
    split_ifs at h
    obtain rfl := Option.some.inj h
    exact .recover now readAt
  case h_3 id now =>
    obtain ⟨job, hfind, rfl⟩ := Option.map_eq_some_iff.1 h
    have hfound := List.find?_some hfind
    obtain ⟨rfl, hdue, -⟩ := of_decide_eq_true hfound
    exact .find now job (List.mem_of_find?_eq_some hfind) hdue
  case h_4 now =>
    split_ifs at h
    obtain rfl := Option.some.inj h
    exact .nothing now
  case h_5 job =>
    obtain rfl := Option.some.inj h
    exact .stamp job
  case h_6 job claimedAt =>
    split_ifs at h with hany
    · obtain rfl := Option.some.inj h
      obtain ⟨row, hmem, hsame⟩ := List.any_eq_true.1 hany
      exact .claim job claimedAt row hmem hsame
    · obtain rfl := Option.some.inj h
      exact .miss job claimedAt
  case h_7 job lease result stage =>
    obtain ⟨checked, hchecked, rfl⟩ := Option.map_eq_some_iff.1 h
    exact .check job lease result stage checked (checkEffect hchecked)
  case h_8 result job lease =>
    obtain rfl := Option.some.inj h
    by_cases hready : result.status = .ready
    · rw [if_pos hready]
      exact .captured job lease result hready
    · rw [if_neg hready]
      exact .failed job lease result _ hready
  case h_9 job lease _ _ =>
    obtain rfl := Option.some.inj h
    exact .fail _ job lease rfl rfl
  case h_10 job lease =>
    obtain rfl := Option.some.inj h
    exact .fail _ job lease rfl rfl
  case h_11 job lease _ =>
    obtain rfl := Option.some.inj h
    exact .fail _ job lease rfl rfl
  case h_12 job lease outcome caught =>
    split_ifs at h with hany
    · obtain rfl := Option.some.inj h
      obtain ⟨row, hmem, hholds⟩ := List.any_eq_true.1 hany
      exact .write job lease outcome caught row hmem hholds
    · obtain rfl := Option.some.inj h
      rw [Bool.not_eq_true, List.any_eq_false] at hany
      exact .lost job lease outcome caught fun row hrow => Bool.eq_false_iff.2 (hany row hrow)
  case h_13 id status =>
    split_ifs at h with hany
    · obtain rfl := Option.some.inj h
      obtain ⟨row, hmem, hsame⟩ := List.any_eq_true.1 hany
      exact .reset id status row hmem (of_decide_eq_true hsame)
    · obtain rfl := Option.some.inj h
      exact .outdated id status
  case h_14 => exact nomatch h

/-! ## Steps -/

/-- What a step of the system is. -/
inductive StepEffect (env : CaptureEnv) (db : EvidenceDb) : EvidenceAction → EvidenceDb → Prop
  | tick (elapsed : ℕ) : StepEffect env db (.tick elapsed) { db with now := db.now + elapsed }
  | crm (crm : SourceCrm) : StepEffect env db (.crm crm) { db with crm }
  | kept (id observationId : String) (observation : Observed) (sourceUrl : String) (unavailable : Option String) :
    StepEffect env db (.ensure id observationId observation sourceUrl unavailable) db
  | ensure (id observationId : String) (observation : Observed) (sourceUrl : String) (unavailable : Option String)
    (hnew : ∀ row ∈ db.rows, row.id ≠ id) :
    StepEffect env db (.ensure id observationId observation sourceUrl unavailable) { db with
      rows := db.rows ++ [newRow id observationId observation sourceUrl unavailable db.now] }
  | requeue : StepEffect env db .requeue { db with
      rows := updateWhere (fun row => row.status = .disabled) EvidenceRow.reset db.rows
      history := .reset ((db.rows.filter fun row => row.status = .disabled).map EvidenceRow.id) :: db.history }
  | process : StepEffect env db .process { db with calls := db.calls ++ [.started] }
  | retry (id : String) (status : EvidenceStatus) (hstatus : status = .error ∨ status = .disabled) :
    StepEffect env db (.retry id) { db with calls := db.calls ++ [.retrying id status] }
  | act (i : ℕ) (move : Move) (phase : CallPhase) (next : List EvidenceRow × List Event × CallPhase)
    (hi : db.calls[i]? = some phase) (heffect : MoveEffect env db i move phase next) :
    StepEffect env db (.act i move)
      { db with rows := next.1, history := next.2.1 ++ db.history, calls := db.calls.set i next.2.2 }

theorem stepEffect (h : evidenceStep env db action = some db') : StepEffect env db action db' := by
  cases action with
  | tick elapsed =>
    obtain rfl := Option.some.inj h
    exact .tick elapsed
  | crm crm =>
    obtain rfl := Option.some.inj h
    exact .crm crm
  | ensure id observationId observation sourceUrl unavailable =>
    simp only [evidenceStep] at h
    split_ifs at h with hkept hid
    · obtain rfl := Option.some.inj h
      exact .kept id observationId observation sourceUrl unavailable
    · obtain rfl := Option.some.inj h
      refine .ensure id observationId observation sourceUrl unavailable fun row hrow heq => hid ?_
      exact List.any_eq_true.2 ⟨row, hrow, decide_eq_true heq⟩
  | requeue =>
    obtain rfl := Option.some.inj h
    exact .requeue
  | process =>
    obtain rfl := Option.some.inj h
    exact .process
  | retry id =>
    obtain ⟨row, -, hstep⟩ := Option.bind_eq_some_iff.1 h
    split_ifs at hstep with hstatus
    obtain rfl := Option.some.inj hstep
    exact .retry id row.status hstatus
  | act i move =>
    obtain ⟨phase, hi, hstep⟩ := Option.bind_eq_some_iff.1 h
    obtain ⟨next, hmove, rfl⟩ := Option.map_eq_some_iff.1 hstep
    exact .act i move phase next hi (moveEffect hmove)

/-! ## Rows -/

/-- The row keeps its id and its observation. -/
def Keeps (f : EvidenceRow → EvidenceRow) : Prop :=
  ∀ row, (f row).id = row.id ∧ (f row).observation = row.observation

theorem keeps_interrupt (now : ℕ) : Keeps (EvidenceRow.interrupt now) := fun _ => ⟨rfl, rfl⟩

theorem keeps_claim (claimedAt : ℕ) : Keeps (EvidenceRow.claim claimedAt) := fun _ => ⟨rfl, rfl⟩

theorem keeps_reset : Keeps EvidenceRow.reset := fun _ => ⟨rfl, rfl⟩

theorem Outcome.keeps_write (outcome : Outcome) : Keeps outcome.write := by
  intro row
  cases outcome with
  | error => exact ⟨rfl, rfl⟩
  | captured => exact ⟨rfl, rfl⟩

/-- What a step does to the rows: nothing, a new row at the end, or an update. -/
inductive RowsEffect (rows : List EvidenceRow) : List EvidenceRow → Prop
  | same : RowsEffect rows rows
  | insert (new : EvidenceRow) (hnew : ∀ row ∈ rows, row.id ≠ new.id) (hready : new.status ≠ .ready) :
    RowsEffect rows (rows ++ [new])
  | update (p : EvidenceRow → Bool) (f : EvidenceRow → EvidenceRow) (hkeeps : Keeps f)
    (hready : ∀ row, p row = true → row.status ≠ .ready) : RowsEffect rows (updateWhere p f rows)

theorem stale_not_ready {readAt : ℕ} (h : row.stale readAt = true) : row.status ≠ .ready := by
  have hrunning := of_decide_eq_true (Bool.and_eq_true_iff.1 h).1
  rw [hrunning]
  exact nofun

theorem Lease.holds_iff : lease.holds row = true ↔ row.id = lease.id ∧ row.status = .running ∧
    row.startedAt = some lease.startedAt ∧ row.attempts = lease.attempts := by
  simp [Lease.holds, and_assoc]

theorem EvidenceRow.same_iff : job.same row = true ↔
    row.id = job.id ∧ row.status = job.status ∧ row.attempts = job.attempts := by
  simp [EvidenceRow.same, and_assoc]

/-- What a call knows of a row that it has found. -/
def Claimable (job : EvidenceRow) : Prop := job.status = .pending ∨ job.status = .error ∧ job.attempts < 3

theorem claimable_of_due {now : ℕ} (h : job.due now = true) : Claimable job := by
  unfold EvidenceRow.due at h
  rw [Bool.or_eq_true, Bool.and_eq_true, Bool.and_eq_true, Bool.and_eq_true] at h
  rcases h with ⟨hpending, -⟩ | ⟨⟨herror, hattempts⟩, -⟩
  · exact Or.inl (of_decide_eq_true hpending)
  · exact Or.inr ⟨of_decide_eq_true herror, of_decide_eq_true hattempts⟩

theorem Claimable.not_ready (h : Claimable job) : job.status ≠ .ready := by
  rcases h with hpending | ⟨herror, -⟩
  · rw [hpending]
    exact nofun
  · rw [herror]
    exact nofun

/-! ## Events -/

/-- How often a row has been claimed since the last manual retry. -/
def claimsSinceReset (id : String) : List Event → ℕ
  | [] => 0
  | .reset ids :: history => if id ∈ ids then 0 else claimsSinceReset id history
  | .claimed _ other :: history =>
    if other = id then claimsSinceReset id history + 1 else claimsSinceReset id history
  | _ :: history => claimsSinceReset id history

/-- The owner and the group of the deal have matched the observation, after what was before. -/
def Passed (env : CaptureEnv) (o : Observed) (i : ℕ) (before after : List Event) : Prop :=
  ∃ crm crm' : SourceCrm, crm.OwnerIs env o ∧ crm'.GroupIs env o ∧
    after = .groupMatched i crm' :: .ownerMatched i crm :: before

/-- The call has claimed the row, checked the deal, captured the card and checked the deal again. -/
def Captured (env : CaptureEnv) (o : Observed) (i : ℕ) (id : String) (events : List Event) : Prop :=
  ∃ before, Passed env o i [.claimed i id] before ∧ Passed env o i (.captured i :: before) events

/-- A call has written the row behind a capture with both checks. -/
def Verified (env : CaptureEnv) (o : Observed) (id : String) (history : List Event) : Prop :=
  ∃ i events, Captured env o i id events ∧ (.wrote i id :: events).Sublist history

/-- The events behind the check that a call is at. -/
def CheckedSoFar (env : CaptureEnv) (o : Observed) (i : ℕ) (id : String) (result : Option CaptureResult)
    (events : List Event) : Prop :=
  match result with
  | none => events = [.claimed i id]
  | some _ => ∃ before, Passed env o i [.claimed i id] before ∧ events = .captured i :: before

/-- What the call `i` knows of the history and of the rows. -/
def CallPhase.Knows (env : CaptureEnv) (i : ℕ) (history : List Event) : CallPhase → Prop
  | .found job | .claiming job _ => Claimable job
  | .checking job lease result stage => lease.id = job.id ∧
    ∃ events, CheckedSoFar env job.observation i job.id result events ∧
    match stage with
    | .ids => events.Sublist history
    | .deal manager group => job.observation.managerId.bind env.userExternalId = some manager ∧
      group = job.observation.groupId.bind env.groupExternalId ∧ events.Sublist history
    | .user manager group => job.observation.managerId.bind env.userExternalId = some manager ∧
      group = job.observation.groupId.bind env.groupExternalId ∧
      ∃ crm : SourceCrm, crm.OwnerIs env job.observation ∧ (.ownerMatched i crm :: events).Sublist history
  | .capturing job lease => lease.id = job.id ∧
    ∃ events, Passed env job.observation i [.claimed i job.id] events ∧ events.Sublist history
  | .writing job lease outcome _ => lease.id = job.id ∧ ∀ result nextAttemptAt,
    outcome = .captured result nextAttemptAt → result.status = .ready →
      ∃ events, Captured env job.observation i job.id events ∧ events.Sublist history
  | .retrying _ status => status = .error ∨ status = .disabled
  | .started | .recovering _ | .searching _ | .done => True

theorem CallPhase.Knows.mono {history' : List Event} (h : phase.Knows env i history)
    (hgrown : history.Sublist history') : phase.Knows env i history' := by
  cases phase with
  | checking job lease result stage =>
    obtain ⟨hid, events, hsofar, hstage⟩ := h
    refine ⟨hid, events, hsofar, ?_⟩
    cases stage with
    | ids => exact hstage.trans hgrown
    | deal => exact ⟨hstage.1, hstage.2.1, hstage.2.2.trans hgrown⟩
    | user =>
      obtain ⟨hmanager, hgroup, crm, howner, hevents⟩ := hstage
      exact ⟨hmanager, hgroup, crm, howner, hevents.trans hgrown⟩
  | capturing job lease =>
    obtain ⟨hid, events, hpassed, hevents⟩ := h
    exact ⟨hid, events, hpassed, hevents.trans hgrown⟩
  | writing job lease outcome caught =>
    refine ⟨h.1, fun result nextAttemptAt houtcome hready => ?_⟩
    obtain ⟨events, hcaptured, hevents⟩ := h.2 result nextAttemptAt houtcome hready
    exact ⟨events, hcaptured, hevents.trans hgrown⟩
  | _ => exact h

/-- A check goes on, or it has passed. -/
theorem CheckEffect.knows {checked : List Event × CallPhase} (h : CheckEffect env db i job lease result stage checked)
    (hknows : (CallPhase.checking job lease result stage).Knows env i history) :
    checked.2.Knows env i (checked.1 ++ history) := by
  obtain ⟨hid, events, hsofar, hstage⟩ := hknows
  cases h with
  | mismatch => exact ⟨hid, fun _ _ houtcome => nomatch houtcome⟩
  | ids manager hmanager => exact ⟨hid, events, hsofar, hmanager, rfl, hstage⟩
  | deal manager group howner =>
    obtain ⟨hmanager, hgroup, hevents⟩ := hstage
    exact ⟨hid, events, hsofar, hmanager, hgroup, db.crm, ⟨manager, hmanager, howner⟩, hevents.cons_cons _⟩
  | user manager group hcurrent =>
    obtain ⟨hmanager, rfl, crm, howner, hevents⟩ := hstage
    have hpassed : Passed env job.observation i events (.groupMatched i db.crm :: .ownerMatched i crm :: events) :=
      ⟨crm, db.crm, howner, ⟨manager, hmanager, hcurrent⟩, rfl⟩
    cases result with
    | none =>
      obtain rfl := hsofar
      exact ⟨hid, _, hpassed, hevents.cons_cons _⟩
    | some result =>
      obtain ⟨before, hbefore, rfl⟩ := hsofar
      exact ⟨hid, fun _ _ _ _ => ⟨_, ⟨before, hbefore, hpassed⟩, hevents.cons_cons _⟩⟩

/-- What a call knows after its move. -/
theorem MoveEffect.knows (h : MoveEffect env db i move phase next) (hknows : phase.Knows env i db.history) :
    next.2.2.Knows env i (next.2.1 ++ db.history) := by
  cases h with
  | find now job hmem hdue => exact claimable_of_due hdue
  | stamp job => exact hknows
  | claim job claimedAt row hmem hsame =>
    exact ⟨rfl, [.claimed i job.id], rfl, List.singleton_sublist.2 List.mem_cons_self⟩
  | check job lease result stage checked heffect => exact heffect.knows hknows
  | captured job lease result hready =>
    obtain ⟨hid, events, hpassed, hevents⟩ := hknows
    exact ⟨hid, .captured i :: events, ⟨events, hpassed, rfl⟩, hevents.cons_cons _⟩
  | failed job lease result nextAttemptAt hready =>
    refine ⟨hknows.1, fun result' _ houtcome hready' => ?_⟩
    cases houtcome
    exact absurd hready' hready
  | fail phase job lease hphase hlease =>
    refine ⟨?_, fun _ _ houtcome => nomatch houtcome⟩
    cases phase with
    | checking =>
      cases hphase
      cases hlease
      exact hknows.1
    | capturing =>
      cases hphase
      cases hlease
      exact hknows.1
    | writing =>
      cases hphase
      cases hlease
      exact hknows.1
    | _ => exact nomatch hphase
  | _ => trivial

/-! ## The invariant -/

/-- The row that a call has read. -/
def CallPhase.read : CallPhase → Option EvidenceRow
  | .found job | .claiming job _ => some job
  | phase => phase.job

/-- A row that has been read, as it still is. -/
def Joined (rows : List EvidenceRow) (job : EvidenceRow) : Prop :=
  ∃ row ∈ rows, row.id = job.id ∧ row.observation = job.observation

/-- The attempts count the claims since the last manual retry, and a ready row has been verified. -/
structure RowOk (env : CaptureEnv) (history : List Event) (row : EvidenceRow) : Prop where
  attempts : row.attempts = claimsSinceReset row.id history
  limit : row.attempts ≤ 3
  pending : row.status = .pending → row.attempts = 0
  verified : row.status = .ready → Verified env row.observation row.id history

structure QueueInv (env : CaptureEnv) (db : EvidenceDb) : Prop where
  ids : (db.rows.map EvidenceRow.id).Nodup
  recorded : ∀ i id, Event.claimed i id ∈ db.history → id ∈ db.rows.map EvidenceRow.id
  rows : ∀ row ∈ db.rows, RowOk env db.history row
  knows : ∀ (i : ℕ) (phase : CallPhase), db.calls[i]? = some phase → phase.Knows env i db.history
  joined : ∀ phase ∈ db.calls, ∀ job, phase.read = some job → Joined db.rows job

theorem eq_of_id {rows : List EvidenceRow} {row' : EvidenceRow} (h : (rows.map EvidenceRow.id).Nodup)
    (hrow : row ∈ rows) (hrow' : row' ∈ rows) (hid : row.id = row'.id) : row = row' :=
  List.inj_on_of_nodup_map h hrow hrow' hid

theorem Verified.mono {o : Observed} {history' : List Event} (h : Verified env o id history)
    (hgrown : history.Sublist history') : Verified env o id history' := by
  obtain ⟨i, events, hcaptured, hevents⟩ := h
  exact ⟨i, events, hcaptured, hevents.trans hgrown⟩

/-- A row that a step leaves as it is, and does not count a claim of. -/
theorem RowOk.mono {history' : List Event} (h : RowOk env history row) (hgrown : history.Sublist history')
    (hclaims : claimsSinceReset row.id history' = claimsSinceReset row.id history) : RowOk env history' row :=
  ⟨h.attempts.trans hclaims.symm, h.limit, h.pending, fun hready => (h.verified hready).mono hgrown⟩

theorem Joined.rows {rows' : List EvidenceRow} (h : Joined db.rows job) (heffect : RowsEffect db.rows rows') :
    Joined rows' job := by
  obtain ⟨row, hrow, hid, hobservation⟩ := h
  cases heffect with
  | same => exact ⟨row, hrow, hid, hobservation⟩
  | insert => exact ⟨row, List.mem_append_left _ hrow, hid, hobservation⟩
  | update p f hkeeps =>
    refine ⟨_, mem_updateWhere_of_mem hrow, ?_⟩
    split_ifs
    · exact ⟨(hkeeps row).1.trans hid, (hkeeps row).2.trans hobservation⟩
    · exact ⟨hid, hobservation⟩

/-- Ids are kept, and a new one is different. -/
theorem RowsEffect.ids {rows rows' : List EvidenceRow} (h : RowsEffect rows rows')
    (hids : (rows.map EvidenceRow.id).Nodup) :
    (rows'.map EvidenceRow.id).Nodup ∧ ∀ id ∈ rows.map EvidenceRow.id, id ∈ rows'.map EvidenceRow.id := by
  cases h with
  | same => exact ⟨hids, fun _ hid => hid⟩
  | insert new hnew =>
    rw [List.map_append]
    refine ⟨List.nodup_append.2 ⟨hids, List.nodup_singleton _, fun id hid other hother => ?_⟩,
      fun _ hid => List.mem_append_left _ hid⟩
    obtain ⟨row, hrow, rfl⟩ := List.mem_map.1 hid
    obtain rfl := List.mem_singleton.1 hother
    exact hnew row hrow
  | update p f hkeeps =>
    rw [map_updateWhere EvidenceRow.id fun row _ => (hkeeps row).1]
    exact ⟨hids, fun _ hid => hid⟩

/-- A ready row stays as it is. -/
theorem RowsEffect.ready {rows rows' : List EvidenceRow} (h : RowsEffect rows rows') (hrow : row ∈ rows)
    (hready : row.status = .ready) : row ∈ rows' := by
  cases h with
  | same => exact hrow
  | insert => exact List.mem_append_left _ hrow
  | update p f _ hnot =>
    exact mem_updateWhere_of_not hrow (Bool.eq_false_iff.2 fun hp => hnot row hp hready)

theorem keeps_status_of_reset {status : EvidenceStatus} (h : status = .error ∨ status = .disabled) :
    status ≠ .ready := by
  rcases h with rfl | rfl
  · exact nofun
  · exact nofun

theorem MoveEffect.rowsEffect (h : MoveEffect env db i move phase next) (hknows : phase.Knows env i db.history) :
    RowsEffect db.rows next.1 := by
  cases h with
  | recover now readAt => exact .update _ _ (keeps_interrupt now) fun _ hstale => stale_not_ready hstale
  | claim job claimedAt row hmem hsame =>
    refine .update _ _ (keeps_claim claimedAt) fun row hsame => ?_
    rw [(EvidenceRow.same_iff.1 hsame).2.1]
    exact Claimable.not_ready hknows
  | write job lease outcome caught row hmem hholds =>
    refine .update _ _ outcome.keeps_write fun row hholds => ?_
    rw [(Lease.holds_iff.1 hholds).2.1]
    exact nofun
  | reset id status row hmem hsame =>
    refine .update _ _ keeps_reset fun row hsame => ?_
    rw [(of_decide_eq_true hsame).2]
    exact keeps_status_of_reset hknows
  | _ => exact .same

/-- The row of a claim is counted once more; the others are not touched. -/
theorem rowOk_claim {claimedAt : ℕ} (h : ∀ row ∈ db.rows, RowOk env db.history row)
    (hids : (db.rows.map EvidenceRow.id).Nodup) (hclaimable : Claimable job) (hmem : row ∈ db.rows)
    (hsame : job.same row = true) :
    ∀ row' ∈ updateWhere job.same (EvidenceRow.claim claimedAt) db.rows,
      RowOk env (.claimed i job.id :: db.history) row' := by
  intro row' hrow'
  obtain ⟨old, hold, rfl⟩ := mem_updateWhere.1 hrow'
  have hok := h old hold
  split_ifs with hp
  · obtain ⟨hid, hstatus, hattempts⟩ := EvidenceRow.same_iff.1 hp
    refine ⟨?_, ?_, nofun, nofun⟩
    · simp [EvidenceRow.claim, claimsSinceReset, hid, hok.attempts]
    · change old.attempts + 1 ≤ 3
      rcases hclaimable with hpending | ⟨-, hlimit⟩
      · rw [hok.pending (hstatus.trans hpending)]
        omega
      · omega
  · refine hok.mono (List.sublist_cons_self _ _) (if_neg fun hid => hp ?_)
    rw [eq_of_id hids hold hmem (hid.symm.trans (EvidenceRow.same_iff.1 hsame).1.symm)]
    exact hsame

/-- The rows that are put back are counted from the start. -/
theorem rowOk_reset {p : EvidenceRow → Bool} {ids : List String} (h : ∀ row ∈ db.rows, RowOk env db.history row)
    (hp : ∀ row ∈ db.rows, p row = true ↔ row.id ∈ ids) :
    ∀ row' ∈ updateWhere p EvidenceRow.reset db.rows, RowOk env (.reset ids :: db.history) row' := by
  intro row' hrow'
  obtain ⟨old, hold, rfl⟩ := mem_updateWhere.1 hrow'
  split_ifs with hreset
  · refine ⟨?_, Nat.zero_le _, fun _ => rfl, nofun⟩
    simp [EvidenceRow.reset, claimsSinceReset, (hp old hold).1 hreset]
  · exact (h old hold).mono (List.sublist_cons_self _ _) (if_neg fun hid => hreset ((hp old hold).2 hid))

/-- The outcome of a capture that is ready has both checks behind it. -/
theorem rowOk_write {outcome : Outcome} {caught : Bool} (h : QueueInv env db)
    (hi : db.calls[i]? = some (.writing job lease outcome caught)) :
    ∀ row' ∈ updateWhere lease.holds outcome.write db.rows, RowOk env (.wrote i job.id :: db.history) row' := by
  intro row' hrow'
  obtain ⟨old, hold, rfl⟩ := mem_updateWhere.1 hrow'
  have hok := h.rows old hold
  have hgrown : db.history.Sublist (.wrote i job.id :: db.history) := List.sublist_cons_self _ _
  split_ifs with hp
  · obtain ⟨hid, hcaptured⟩ := h.knows i _ hi
    obtain ⟨read, hread, hread_id, hobservation⟩ := h.joined _ (List.mem_of_getElem? hi) job rfl
    have hold_id : old.id = job.id := (Lease.holds_iff.1 hp).1.trans hid
    obtain rfl := eq_of_id h.ids hold hread (hold_id.trans hread_id.symm)
    cases outcome with
    | error nextAttemptAt message => exact ⟨hok.attempts, hok.limit, nofun, nofun⟩
    | captured result nextAttemptAt =>
      refine ⟨hok.attempts, hok.limit, fun hpending => ?_, fun hready => ?_⟩
      · cases hstatus : result.status <;> simp [Outcome.write, hstatus, CaptureStatus.toEvidence] at hpending
      · have hresult : result.status = .ready := by
          cases hstatus : result.status <;> simp [Outcome.write, hstatus, CaptureStatus.toEvidence] at hready ⊢
        obtain ⟨events, hevents, hsublist⟩ := hcaptured result nextAttemptAt rfl hresult
        change Verified env old.observation old.id _
        rw [hobservation, hold_id]
        exact ⟨i, events, hevents, hsublist.cons_cons _⟩
  · exact hok.mono hgrown rfl

theorem MoveEffect.rowOk (h : MoveEffect env db i move phase next) (hinv : QueueInv env db)
    (hi : db.calls[i]? = some phase) : ∀ row ∈ next.1, RowOk env (next.2.1 ++ db.history) row := by
  have hquiet : ∀ event : Event, (∀ id, claimsSinceReset id (event :: db.history) = claimsSinceReset id db.history) →
      ∀ row ∈ db.rows, RowOk env (event :: db.history) row :=
    fun event hevent row hrow => (hinv.rows row hrow).mono (List.sublist_cons_self _ _) (hevent row.id)
  cases h with
  | recover now readAt =>
    intro row' hrow'
    obtain ⟨old, hold, rfl⟩ := mem_updateWhere.1 hrow'
    have hok := hinv.rows old hold
    split_ifs
    · exact ⟨hok.attempts, hok.limit, nofun, nofun⟩
    · exact hok.mono (List.sublist_cons_self _ _) rfl
  | claim job claimedAt row hmem hsame =>
    exact rowOk_claim hinv.rows hinv.ids (hinv.knows i _ hi) hmem hsame
  | check job lease result stage checked heffect =>
    cases heffect with
    | deal => exact hquiet _ fun _ => rfl
    | user => exact hquiet _ fun _ => rfl
    | _ => exact hinv.rows
  | captured => exact hquiet _ fun _ => rfl
  | failed => exact hquiet _ fun _ => rfl
  | write => exact rowOk_write hinv hi
  | reset id status row hmem hsame =>
    refine rowOk_reset hinv.rows fun other hother => ?_
    rw [decide_eq_true_iff, List.mem_singleton]
    refine ⟨And.left, fun hid => ?_⟩
    rw [eq_of_id hinv.ids hother hmem (hid.trans hsame.1.symm)]
    exact hsame
  | _ => exact hinv.rows

/-- Only a row of the table is claimed. -/
theorem MoveEffect.recorded (h : MoveEffect env db i move phase next) {k : ℕ}
    (hmem : Event.claimed k id ∈ next.2.1) : id ∈ db.rows.map EvidenceRow.id := by
  cases h with
  | claim job claimedAt row hrow hsame =>
    cases List.mem_singleton.1 hmem
    exact List.mem_map.2 ⟨row, hrow, (EvidenceRow.same_iff.1 hsame).1⟩
  | check job lease result stage checked heffect => cases heffect <;> simp at hmem
  | _ => simp at hmem

/-- What a call has read after its move it has read before, or it reads it now. -/
theorem MoveEffect.joined (h : MoveEffect env db i move phase next)
    (hjoined : ∀ job, phase.read = some job → Joined db.rows job) (hread : next.2.2.read = some job) :
    Joined db.rows job := by
  cases h with
  | find now job' hmem =>
    cases hread
    exact ⟨job, hmem, rfl, rfl⟩
  | stamp => exact hjoined job hread
  | claim => exact hjoined job hread
  | check job' lease result stage checked heffect =>
    cases heffect with
    | user =>
      cases result with
      | none => exact hjoined job hread
      | some => exact hjoined job hread
    | _ => exact hjoined job hread
  | captured => exact hjoined job hread
  | failed => exact hjoined job hread
  | fail phase job' lease hphase =>
    refine hjoined job ?_
    cases phase with
    | found => exact nomatch hphase
    | claiming => exact nomatch hphase
    | _ => exact hphase.trans hread
  | _ => exact nomatch hread

theorem claimsSinceReset_eq_zero (h : ∀ i, Event.claimed i id ∉ history) : claimsSinceReset id history = 0 := by
  induction history with
  | nil => rfl
  | cons event history ih =>
    have hrest := ih fun i hmem => h i (List.mem_cons_of_mem event hmem)
    cases event with
    | reset ids =>
      simp only [claimsSinceReset]
      split_ifs
      · rfl
      · exact hrest
    | claimed i other =>
      have hne : other ≠ id := fun heq => h i (heq ▸ List.mem_cons_self)
      exact (if_neg hne).trans hrest
    | _ => exact hrest

/-- A call that begins. -/
theorem QueueInv.call {new : CallPhase} (h : QueueInv env db) (hknows : ∀ i, new.Knows env i db.history)
    (hread : new.read = none) : QueueInv env { db with calls := db.calls ++ [new] } := by
  refine ⟨h.ids, h.recorded, h.rows, fun i phase hi => ?_, fun phase hphase job hjob => ?_⟩
  · rcases getElem?_append_cases hi with hold | ⟨-, hnew⟩
    · exact h.knows i phase hold
    · obtain rfl := List.mem_singleton.1 hnew
      exact hknows i
  · rcases List.mem_append.1 hphase with hold | hnew
    · exact h.joined phase hold job hjob
    · obtain rfl := List.mem_singleton.1 hnew
      rw [hread] at hjob
      exact nomatch hjob

theorem QueueInv.act (h : QueueInv env db) (hi : db.calls[i]? = some phase)
    (heffect : MoveEffect env db i move phase next) : QueueInv env
      { db with rows := next.1, history := next.2.1 ++ db.history, calls := db.calls.set i next.2.2 } := by
  have hrows := heffect.rowsEffect (h.knows i phase hi)
  obtain ⟨hids, hkept⟩ := hrows.ids h.ids
  refine ⟨hids, fun k id hmem => ?_, heffect.rowOk h hi, fun j other hj => ?_, ?_⟩
  · rcases List.mem_append.1 hmem with hnew | hold
    · exact hkept id (heffect.recorded hnew)
    · exact hkept id (h.recorded k id hold)
  · rcases getElem?_set_cases hj with ⟨rfl, rfl⟩ | ⟨-, hold⟩
    · exact heffect.knows (h.knows _ phase hi)
    · exact (h.knows j other hold).mono (List.sublist_append_right _ _)
  · refine forall_mem_set (fun job hjob => ?_) fun j other _ hj job hjob => ?_
    · exact (heffect.joined (h.joined phase (List.mem_of_getElem? hi)) hjob).rows hrows
    · exact (h.joined other (List.mem_of_getElem? hj) job hjob).rows hrows

theorem QueueInv.step (h : QueueInv env db) (hstep : evidenceStep env db action = some db') : QueueInv env db' := by
  cases stepEffect hstep with
  | tick => exact ⟨h.ids, h.recorded, h.rows, h.knows, h.joined⟩
  | crm => exact ⟨h.ids, h.recorded, h.rows, h.knows, h.joined⟩
  | kept => exact h
  | ensure id observationId observation sourceUrl unavailable hnew =>
    have hrows : RowsEffect db.rows
        (db.rows ++ [newRow id observationId observation sourceUrl unavailable db.now]) := by
      refine .insert _ hnew ?_
      cases unavailable <;> exact nofun
    obtain ⟨hids, hkept⟩ := hrows.ids h.ids
    refine ⟨hids, fun k id hmem => hkept id (h.recorded k id hmem), fun row hrow => ?_, h.knows,
      fun phase hphase job hjob => (h.joined phase hphase job hjob).rows hrows⟩
    rcases List.mem_append.1 hrow with hold | hmem
    · exact h.rows row hold
    · obtain rfl := List.mem_singleton.1 hmem
      refine ⟨(claimsSinceReset_eq_zero fun k hclaimed => ?_).symm, Nat.zero_le _, fun _ => rfl, fun hready => ?_⟩
      · obtain ⟨old, hold, hid⟩ := List.mem_map.1 (h.recorded k id hclaimed)
        exact hnew old hold hid
      · cases unavailable <;> exact nomatch hready
  | requeue =>
    have hrows : RowsEffect db.rows (updateWhere (fun row => row.status = .disabled) EvidenceRow.reset db.rows) := by
      refine .update _ _ keeps_reset fun row hrow => ?_
      rw [of_decide_eq_true hrow]
      exact nofun
    obtain ⟨hids, hkept⟩ := hrows.ids h.ids
    refine ⟨hids, fun k id hmem => ?_, rowOk_reset h.rows fun row hrow => ?_,
      fun i phase hi => (h.knows i phase hi).mono (List.sublist_cons_self _ _),
      fun phase hphase job hjob => (h.joined phase hphase job hjob).rows hrows⟩
    · rcases List.mem_cons.1 hmem with heq | hold
      · exact nomatch heq
      · exact hkept id (h.recorded k id hold)
    · refine ⟨fun hdisabled => List.mem_map.2 ⟨row, List.mem_filter.2 ⟨hrow, hdisabled⟩, rfl⟩, fun hmem => ?_⟩
      obtain ⟨old, hold, hid⟩ := List.mem_map.1 hmem
      obtain ⟨hold, hdisabled⟩ := List.mem_filter.1 hold
      rw [← eq_of_id h.ids hold hrow hid]
      exact hdisabled
  | process => exact h.call (fun _ => trivial) rfl
  | retry id status hstatus => exact h.call (fun _ => hstatus) rfl
  | act i move phase next hi heffect => exact h.act hi heffect

theorem queueInv_of_reachable {crm : SourceCrm} {G : EvidenceDb → EvidenceAction → Prop}
    (h : Run.ReachableVia (evidenceStep env) G { crm } db) : QueueInv env db := by
  refine h.invariant ⟨List.nodup_nil, ?_, ?_, ?_, ?_⟩ fun _ _ _ hinv _ hstep => hinv.step hstep
  · exact fun _ _ hmem => absurd hmem List.not_mem_nil
  · exact fun _ hrow => absurd hrow List.not_mem_nil
  · exact fun _ _ hi => nomatch hi
  · exact fun _ hphase => absurd hphase List.not_mem_nil

/-! ## Ready rows -/

theorem ready_of_step (h : QueueInv env db) (hstep : evidenceStep env db action = some db') (hrow : row ∈ db.rows)
    (hready : row.status = .ready) : row ∈ db'.rows := by
  cases stepEffect hstep with
  | ensure => exact List.mem_append_left _ hrow
  | requeue =>
    refine mem_updateWhere_of_not hrow (decide_eq_false ?_)
    rw [hready]
    exact nofun
  | act i move phase next hi heffect => exact (heffect.rowsEffect (h.knows i phase hi)).ready hrow hready
  | _ => exact hrow

/-- A ready row never changes again. -/
theorem ready_of_reachable (h : QueueInv env db) (hlater : Run.Reachable (evidenceStep env) db last)
    (hrow : row ∈ db.rows) (hready : row.status = .ready) : row ∈ last.rows :=
  (hlater.invariant (I := fun db => QueueInv env db ∧ row ∈ db.rows) ⟨h, hrow⟩
    fun _ _ _ hinv _ hstep => ⟨hinv.1.step hstep, ready_of_step hinv.1 hstep hinv.2 hready⟩).2

/-- Between two manual retries a row is claimed at most three times. -/
theorem claimsSinceReset_le (h : QueueInv env db) (id : String) : claimsSinceReset id db.history ≤ 3 := by
  by_cases hmem : id ∈ db.rows.map EvidenceRow.id
  · obtain ⟨row, hrow, rfl⟩ := List.mem_map.1 hmem
    rw [← (h.rows row hrow).attempts]
    exact (h.rows row hrow).limit
  · rw [claimsSinceReset_eq_zero fun i hclaimed => hmem (h.recorded i id hclaimed)]
    exact Nat.zero_le 3

end AmoAnalytics.Evidence
