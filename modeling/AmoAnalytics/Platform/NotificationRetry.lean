import AmoAnalytics.Platform.QualityNotifications

/-!
# Retries of notifications

A run attempts to notify a user of an open incident exactly when nothing is recorded under the key of the
incident's count. A failed or skipped attempt is recorded, and the count only grows with a delivery, so the
attempt is repeated if and only if it was none.
-/

namespace AmoAnalytics.Platform

open Quality

variable {db db' : NotifyDb} {outcome : EventKey → Outcome} {key key' : EventKey} {incident : Incident}
  {userId : String} {users : List String}

/-! ## Attempts -/

/-- The attempts that are recorded under a key. -/
def NotifyDb.attempts (db : NotifyDb) (key : EventKey) : ℕ := db.deliveries.countP (·.eventKey = key)

theorem attempts_eq_zero_iff : db.attempts key = 0 ↔ db.recorded key = false := by
  rw [NotifyDb.attempts, List.countP_eq_zero, NotifyDb.recorded, List.any_eq_false]

/-- What one send does to the deliveries. -/
inductive SendEffect (outcome : EventKey → Outcome) (db : NotifyDb) (key : EventKey) :
    NotifyDb × DeliveryStatus → Prop
  | existing (delivery : Delivery) (h : delivery ∈ db.deliveries) (hkey : delivery.eventKey = key) :
      SendEffect outcome db key (db, delivery.status)
  | attempt (h : db.recorded key = false) : SendEffect outcome db key ({ db with
      deliveries := db.deliveries ++ [⟨key, db.attempt outcome key⟩]
      requests := if db.asks key then db.requests ++ [key] else db.requests }, db.attempt outcome key)

theorem sendEffect {sent : NotifyDb × DeliveryStatus} (h : db.sendDirectMessageToUser outcome key = sent) :
    SendEffect outcome db key sent := by
  subst h
  unfold NotifyDb.sendDirectMessageToUser
  split
  case h_1 existing hfind =>
    have hkey := List.find?_some hfind
    exact .existing existing (List.mem_of_find?_eq_some hfind) (of_decide_eq_true hkey)
  case h_2 hfind => exact .attempt (List.any_eq_false.2 (List.find?_eq_none.1 hfind))

/-- A send attempts its key if nothing is recorded under it, and no other key. -/
theorem attempts_send : (db.sendDirectMessageToUser outcome key).1.attempts key' =
    db.attempts key' + if key' = key ∧ db.attempts key' = 0 then 1 else 0 := by
  generalize hsent : db.sendDirectMessageToUser outcome key = sent
  cases sendEffect hsent with
  | existing delivery h hkey =>
    have hrecorded : db.attempts key ≠ 0 := by
      rw [ne_eq, attempts_eq_zero_iff, Bool.not_eq_false]
      exact List.any_eq_true.2 ⟨delivery, h, decide_eq_true hkey⟩
    rw [if_neg]
    · rfl
    · rintro ⟨rfl, hnot⟩
      exact hrecorded hnot
  | attempt h =>
    simp only [NotifyDb.attempts, List.countP_append, List.countP_singleton, decide_eq_true_eq]
    by_cases hkey : key' = key
    · subst hkey
      have hzero : db.deliveries.countP (·.eventKey = key') = 0 := attempts_eq_zero_iff.2 h
      simp [hzero]
    · simp [hkey, Ne.symm hkey]

/-- A loop whose steps count to one, at the elements of a kind, counts to one. -/
theorem foldl_count_once {σ γ : Type} {f : σ → γ → σ} {n : σ → ℕ} {p : γ → Prop} [DecidablePred p]
    (hstep : ∀ s x, n (f s x) = n s + if p x ∧ n s = 0 then 1 else 0) (xs : List γ) (s : σ) :
    n (xs.foldl f s) = n s + if (∃ x ∈ xs, p x) ∧ n s = 0 then 1 else 0 := by
  induction xs generalizing s with
  | nil => simp
  | cons x xs ih =>
    rw [List.foldl_cons, ih, hstep]
    by_cases hx : p x <;> by_cases hs : n s = 0 <;> simp [hx, hs]

/-! ## One run -/

/-- The state of the loop over the users. -/
def sendStep (outcome : EventKey → Outcome) (incident : Incident) (acc : NotifyDb × Bool) (userId : String) :
    NotifyDb × Bool :=
  ((acc.1.sendDirectMessageToUser outcome (eventKey incident userId)).1,
    acc.2 || (acc.1.sendDirectMessageToUser outcome (eventKey incident userId)).2 = .sent)

/-- The users that an incident is sent to. -/
def recipients (users : List String) : List String := (users.filter (· ≠ "")).dedup

theorem sendMessageToUsers_eq : db.sendMessageToUsers outcome incident users =
    (recipients users).foldl (sendStep outcome incident) (db, false) := rfl

/-- Sending an incident attempts the key of each recipient, if nothing is recorded under it. -/
theorem attempts_notify (db : NotifyDb) (incident : Incident) :
    (db.notify outcome users incident).attempts key = db.attempts key +
      if (∃ userId ∈ recipients users, key = eventKey incident userId) ∧ db.attempts key = 0 then 1 else 0 := by
  have hloop : (db.sendMessageToUsers outcome incident users).1.attempts key = db.attempts key +
      if (∃ userId ∈ recipients users, key = eventKey incident userId) ∧ db.attempts key = 0 then 1 else 0 :=
    foldl_count_once (n := fun acc : NotifyDb × Bool => acc.1.attempts key)
      (p := fun userId => key = eventKey incident userId) (fun _ _ => attempts_send) _ _
  have hmarked : ∀ db' : NotifyDb, (db'.markNotified incident).attempts key = db'.attempts key :=
    fun _ => rfl
  unfold NotifyDb.notify
  dsimp only
  by_cases hsent : (db.sendMessageToUsers outcome incident users).2 = true
  · rw [if_pos hsent, hmarked, hloop]
  · rw [if_neg hsent, hloop]

/-- A run attempts the keys of the due incidents and the recipients, if nothing is recorded under them. -/
theorem attempts_run : (db.processQualityNotifications outcome).attempts key = db.attempts key +
    if (∃ incident ∈ db.dueIncidents, ∃ userId ∈ recipients db.ownerUserIds, key = eventKey incident userId) ∧
      db.attempts key = 0 then 1 else 0 :=
  foldl_count_once (n := fun db : NotifyDb => db.attempts key)
    (p := fun incident => ∃ userId ∈ recipients db.ownerUserIds, key = eventKey incident userId)
    attempts_notify _ _

/-! ## What stays -/

/-- The incidents stay, and their counts never decrease. -/
def Grown (before after : List Incident) : Prop :=
  ∀ a ∈ before, ∃ b ∈ after, b.id = a.id ∧ a.notificationCount ≤ b.notificationCount

variable {before after last : List Incident} {deliveries : List Delivery}

theorem Grown.refl (rows : List Incident) : Grown rows rows := fun a ha => ⟨a, ha, rfl, le_rfl⟩

theorem Grown.trans (h : Grown before after) (h' : Grown after last) : Grown before last := by
  intro a ha
  obtain ⟨b, hb, hid, hcount⟩ := h a ha
  obtain ⟨c, hc, hid', hcount'⟩ := h' b hb
  exact ⟨c, hc, hid'.trans hid, hcount.trans hcount'⟩

theorem Grown.append (before added : List Incident) : Grown before (before ++ added) :=
  fun a ha => ⟨a, List.mem_append_left _ ha, rfl, le_rfl⟩

theorem Grown.updateWhere {p : Incident → Bool} {f : Incident → Incident} (hid : ∀ row, (f row).id = row.id)
    (hcount : ∀ row, row.notificationCount ≤ (f row).notificationCount) (rows : List Incident) :
    Grown rows (Table.updateWhere p f rows) := by
  intro a ha
  refine ⟨_, Table.mem_updateWhere_of_mem ha, ?_⟩
  split_ifs
  · exact ⟨hid a, hcount a⟩
  · exact ⟨rfl, le_rfl⟩

/-- No statement of an evaluation removes an incident or sets its count back. -/
theorem grown_evaluate (release : Release) (quality : QualityDb) (evaluation : Evaluation) :
    Grown quality.incidents (quality.evaluate release evaluation).incidents := by
  have hfindings : ∀ (open_ : List Incident) (findings : List Finding),
      Grown quality.incidents (findings.foldl (QualityDb.applyFinding open_ evaluation.connectionId
        evaluation.startedAt evaluation.createdAt) quality).incidents := by
    intro open_ findings
    refine List.foldlRecOn findings _ (motive := fun next : QualityDb =>
      Grown quality.incidents next.incidents) (.refl _) fun next hnext finding _ => hnext.trans ?_
    unfold QualityDb.applyFinding
    split
    case h_1 => exact Grown.append next.incidents _
    case h_2 existing _ =>
      exact Grown.updateWhere (f := existing.detect finding evaluation.startedAt) (fun _ => rfl)
        (fun _ => le_rfl) next.incidents
  refine List.foldlRecOn _ _ (motive := fun next : QualityDb =>
    Grown quality.incidents next.incidents) (hfindings _ _) fun next hnext incident _ => hnext.trans ?_
  unfold QualityDb.resolveAbsent
  split_ifs
  · exact .refl _
  · exact Grown.updateWhere (f := Incident.resolve evaluation.startedAt) (fun _ => rfl) (fun _ => le_rfl)
      next.incidents

theorem grown_markNotified (db : NotifyDb) (incident : Incident) :
    Grown db.quality.incidents (db.markNotified incident).quality.incidents := by
  refine .updateWhere (fun row => ?_) (fun row => ?_) _
  · unfold Incident.notified
    split_ifs <;> rfl
  · unfold Incident.notified
    split_ifs
    · exact le_rfl
    · exact Nat.le_succ _

theorem tableOk_markNotified (h : TableOk db.quality) (incident : Incident) :
    TableOk (db.markNotified incident).quality := by
  have hkept : ∀ (resolved : Bool) (row : Incident), (Incident.notified resolved db.now row).idKey = row.idKey ∧
      (Incident.notified resolved db.now row).openKey = row.openKey := by
    intro resolved row
    cases resolved <;> exact ⟨rfl, rfl⟩
  refine ⟨h.ids.updateWhere fun row _ => Or.inl (hkept _ row).1, fun row hrow => ?_,
    h.open_.updateWhere fun row _ => Or.inl (hkept _ row).2⟩
  obtain ⟨row, hmem, rfl⟩ := Table.mem_updateWhere.1 hrow
  split_ifs
  · rw [Option.some.inj (hkept _ row).1]
    exact h.drawn row hmem
  · exact h.drawn row hmem

/-- A delivered notification of an open incident is below the count of the incident. -/
def Counted (deliveries : List Delivery) (rows : List Incident) : Prop :=
  ∀ d ∈ deliveries, d.status = .sent → d.eventKey.status = .open →
    ∃ row ∈ rows, row.id = d.eventKey.incidentId ∧ d.eventKey.notificationCount < row.notificationCount

theorem Counted.grown (h : Counted deliveries before) (hgrown : Grown before after) :
    Counted deliveries after := by
  intro d hd hsent hopen
  obtain ⟨a, ha, hid, hcount⟩ := h d hd hsent hopen
  obtain ⟨b, hb, hid', hcount'⟩ := hgrown a ha
  exact ⟨b, hb, hid'.trans hid, hcount.trans_le hcount'⟩

/-- Telegram was asked once under a key, and the answer is recorded. -/
structure Asked (db : NotifyDb) : Prop where
  nodup : db.requests.Nodup
  recorded : ∀ key ∈ db.requests, db.recorded key = true

theorem Asked.send (h : Asked db) : Asked (db.sendDirectMessageToUser outcome key).1 := by
  generalize hsent : db.sendDirectMessageToUser outcome key = sent
  cases sendEffect hsent with
  | existing => exact h
  | attempt hnot =>
    have hkey : key ∉ db.requests := fun hmem => by simp [h.recorded key hmem] at hnot
    have hgrows : ∀ key', db.recorded key' = true ∨ key' = key →
        ((db.deliveries ++ [(⟨key, db.attempt outcome key⟩ : Delivery)]).any (·.eventKey = key')) = true := by
      rintro key' (hold | rfl)
      · rw [List.any_append, Bool.or_eq_true]
        exact Or.inl hold
      · simp
    constructor
    · dsimp only
      split_ifs
      · exact h.nodup.append (List.nodup_singleton _) (List.disjoint_singleton.2 hkey)
      · exact h.nodup
    · intro key' hmem
      refine hgrows key' ?_
      dsimp only at hmem
      split_ifs at hmem
      · rcases List.mem_append.1 hmem with hold | hnew
        · exact Or.inl (h.recorded key' hold)
        · exact Or.inr (List.mem_singleton.1 hnew)
      · exact Or.inl (h.recorded key' hmem)

/-! ## The loop over the users -/

/-- What the loop over the users has done: the incidents are untouched, and a new delivery is under a key of the
incident, and is counted as one if it has been sent. -/
structure Sending (db : NotifyDb) (incident : Incident) (acc : NotifyDb × Bool) : Prop where
  quality : acc.1.quality = db.quality
  asked : Asked acc.1
  deliveries : ∀ d ∈ acc.1.deliveries, d ∈ db.deliveries ∨
    ((∃ userId, d.eventKey = eventKey incident userId) ∧ (d.status = .sent → acc.2 = true))

theorem Sending.step {acc : NotifyDb × Bool} (h : Sending db incident acc) (userId : String) :
    Sending db incident (sendStep outcome incident acc userId) := by
  have hasked : Asked (acc.1.sendDirectMessageToUser outcome (eventKey incident userId)).1 := h.asked.send
  unfold sendStep
  generalize hsent : acc.1.sendDirectMessageToUser outcome (eventKey incident userId) = sent at hasked ⊢
  cases sendEffect hsent with
  | existing delivery hmem hkey =>
    refine ⟨h.quality, hasked, fun d hd => (h.deliveries d hd).imp_right fun hnew => ?_⟩
    exact ⟨hnew.1, fun hs => by simp [hnew.2 hs]⟩
  | attempt hnot =>
    refine ⟨h.quality, hasked, fun d hd => ?_⟩
    rcases List.mem_append.1 hd with hold | hnew
    · refine (h.deliveries d hold).imp_right fun hnew => ⟨hnew.1, fun hs => by simp [hnew.2 hs]⟩
    · obtain rfl := List.mem_singleton.1 hnew
      refine Or.inr ⟨⟨userId, rfl⟩, fun hs => ?_⟩
      dsimp only at hs
      rw [hs]
      simp

theorem sending (h : Asked db) : Sending db incident (db.sendMessageToUsers outcome incident users) := by
  rw [sendMessageToUsers_eq]
  exact List.foldlRecOn _ _ (motive := Sending db incident) ⟨rfl, h, fun d hd => Or.inl hd⟩
    fun acc hacc userId _ => hacc.step userId

/-! ## The invariant -/

/-- The tables after a run of steps. -/
structure NotifyInv (db : NotifyDb) : Prop where
  table : TableOk db.quality
  asked : Asked db
  counted : Counted db.deliveries db.quality.incidents

/-- Sending one incident, read some statements earlier, keeps the invariant. -/
theorem NotifyInv.notify {start : List Incident} (h : NotifyInv db) (hmem : incident ∈ start)
    (hgrown : Grown start db.quality.incidents) :
    NotifyInv (db.notify outcome users incident) ∧
      Grown start (db.notify outcome users incident).quality.incidents := by
  have hs : Sending db incident (db.sendMessageToUsers outcome incident users) := sending h.asked
  unfold NotifyDb.notify
  dsimp only
  split_ifs with hsent
  · set sent := (db.sendMessageToUsers outcome incident users).1
    have hmarked := grown_markNotified sent incident
    rw [hs.quality] at hmarked
    refine ⟨⟨tableOk_markNotified (hs.quality ▸ h.table) incident,
      ⟨hs.asked.nodup, hs.asked.recorded⟩, fun d hd hdsent hdopen => ?_⟩, hgrown.trans hmarked⟩
    rcases hs.deliveries d hd with hold | ⟨⟨userId, hkey⟩, -⟩
    · exact h.counted.grown hmarked d hold hdsent hdopen
    · -- The count of the incident has just been increased.
      obtain ⟨row, hrow, hid, hcount⟩ := hgrown incident hmem
      rw [hkey] at hdopen ⊢
      have hnot : incident.status ≠ .resolved := by
        rw [show incident.status = .open from hdopen]
        exact nofun
      refine ⟨Incident.notified (incident.status = .resolved) sent.now row, ?_, ?_, ?_⟩
      · have hrow' : row ∈ sent.quality.incidents := hs.quality.symm ▸ hrow
        exact Table.mem_updateWhere_of_pos hrow' (decide_eq_true hid)
      · rw [Incident.notified, if_neg (by simpa using hnot)]
        exact hid
      · rw [Incident.notified, if_neg (by simpa using hnot)]
        exact Nat.lt_succ_of_le hcount
  · rw [hs.quality]
    refine ⟨⟨hs.quality ▸ h.table, hs.asked, fun d hd hdsent hdopen => ?_⟩, hgrown⟩
    rcases hs.deliveries d hd with hold | ⟨-, hnew⟩
    · rw [hs.quality]
      exact h.counted d hold hdsent hdopen
    · exact absurd (hnew hdsent) hsent

theorem mem_of_mem_dueIncidents (h : incident ∈ db.dueIncidents) : incident ∈ db.quality.incidents := by
  unfold NotifyDb.dueIncidents at h
  split at h
  · rw [List.mem_insertionSort] at h
    exact (List.mem_filter.1 h).1
  · exact absurd h List.not_mem_nil

/-- A run keeps the invariant. -/
theorem NotifyInv.run (h : NotifyInv db) : NotifyInv (db.processQualityNotifications outcome) := by
  refine (List.foldlRecOn db.dueIncidents _ (motive := fun next : NotifyDb => NotifyInv next ∧
    Grown db.quality.incidents next.quality.incidents) ⟨h, .refl _⟩ fun next hnext incident hmem => ?_).1
  exact hnext.1.notify (mem_of_mem_dueIncidents hmem) hnext.2

theorem NotifyInv.step {release : Release} {action : NotifyAction} (h : NotifyInv db)
    (hstep : notifyStep release db action = some db') : NotifyInv db' := by
  cases action with
  | evaluate evaluation =>
    obtain ⟨quality, hquality, rfl⟩ := Option.map_eq_some_iff.1 hstep
    unfold qualityStep at hquality
    split_ifs at hquality
    obtain rfl := Option.some.inj hquality
    have htable : TableOk (db.quality.synchronizeIncidents evaluation.connectionId
        (evaluation.readings.findings release) evaluation.startedAt evaluation.createdAt) :=
      h.table.synchronizeIncidents (evaluation.readings.findings_codes_nodup release)
    exact ⟨⟨htable.ids, htable.drawn, htable.open_⟩, ⟨h.asked.nodup, h.asked.recorded⟩,
      h.counted.grown (grown_evaluate release db.quality evaluation)⟩
  | run outcome =>
    obtain rfl := Option.some.inj hstep
    exact h.run
  | settings settings =>
    obtain rfl := Option.some.inj hstep
    exact ⟨h.table, ⟨h.asked.nodup, h.asked.recorded⟩, h.counted⟩
  | users users =>
    obtain rfl := Option.some.inj hstep
    exact ⟨h.table, ⟨h.asked.nodup, h.asked.recorded⟩, h.counted⟩
  | account userId isActive =>
    obtain rfl := Option.some.inj hstep
    exact ⟨h.table, ⟨h.asked.nodup, h.asked.recorded⟩, h.counted⟩
  | token botToken =>
    obtain rfl := Option.some.inj hstep
    exact ⟨h.table, ⟨h.asked.nodup, h.asked.recorded⟩, h.counted⟩
  | tick now =>
    obtain rfl := Option.some.inj hstep
    exact ⟨h.table, ⟨h.asked.nodup, h.asked.recorded⟩, h.counted⟩

theorem notifyInv_of_reachable {release : Release} (h : Run.Reachable (notifyStep release) {} db) :
    NotifyInv db :=
  h.invariant ⟨⟨Table.uniqueOn_nil, fun _ hmem => absurd hmem List.not_mem_nil, Table.uniqueOn_nil⟩, ⟨List.nodup_nil, fun _ hmem => absurd hmem List.not_mem_nil⟩,
    fun _ hmem => absurd hmem List.not_mem_nil⟩ fun _ _ _ hinv _ hstep => hinv.step hstep

/-! ## The retry -/

/-- A delivery of an open incident at its current count has succeeded, to any user. -/
def NotifyDb.deliveredNow (db : NotifyDb) (incident : Incident) : Prop :=
  ∃ d ∈ db.deliveries, d.status = .sent ∧ ∃ userId, d.eventKey = eventKey incident userId

/-- An attempt under the key has failed or has been skipped. -/
def NotifyDb.failedBefore (db : NotifyDb) (key : EventKey) : Prop :=
  ∃ d ∈ db.deliveries, d.eventKey = key ∧ d.status ≠ .sent

/-- A success is counted at once, so none is recorded at the current count. -/
theorem not_deliveredNow (h : NotifyInv db) (hmem : incident ∈ db.quality.incidents)
    (hopen : incident.status = .open) : ¬ db.deliveredNow incident := by
  rintro ⟨d, hd, hsent, userId, hkey⟩
  obtain ⟨row, hrow, hid, hcount⟩ := h.counted d hd hsent (by rw [hkey]; exact hopen)
  rw [hkey] at hid hcount
  obtain rfl := h.table.eq_of_id hrow hmem hid
  exact lt_irrefl _ hcount

/-- What is recorded under a key is a success or not. -/
theorem recorded_iff : db.recorded key = true ↔
    (∃ d ∈ db.deliveries, d.status = .sent ∧ d.eventKey = key) ∨ db.failedBefore key := by
  rw [NotifyDb.recorded, List.any_eq_true]
  constructor
  · rintro ⟨d, hd, hkey⟩
    by_cases hsent : d.status = .sent
    · exact Or.inl ⟨d, hd, hsent, of_decide_eq_true hkey⟩
    · exact Or.inr ⟨d, hd, of_decide_eq_true hkey, hsent⟩
  · rintro (⟨d, hd, -, hkey⟩ | ⟨d, hd, hkey, -⟩) <;> exact ⟨d, hd, decide_eq_true hkey⟩

/-- A run attempts the key of a due incident and a recipient if and only if nothing is recorded under it. -/
theorem attempted_iff (hdue : incident ∈ db.dueIncidents) (huser : userId ∈ db.ownerUserIds)
    (hne : userId ≠ "") : db.attempts (eventKey incident userId) <
      (db.processQualityNotifications outcome).attempts (eventKey incident userId) ↔
    db.recorded (eventKey incident userId) = false := by
  have hrecipient : userId ∈ recipients db.ownerUserIds := by
    rw [recipients, List.mem_dedup, List.mem_filter]
    exact ⟨huser, decide_eq_true hne⟩
  have hsome : ∃ i ∈ db.dueIncidents, ∃ u ∈ recipients db.ownerUserIds,
      eventKey incident userId = eventKey i u := ⟨incident, hdue, userId, hrecipient, rfl⟩
  rw [attempts_run, ← attempts_eq_zero_iff]
  by_cases hzero : db.attempts (eventKey incident userId) = 0
  · rw [if_pos ⟨hsome, hzero⟩]
    exact iff_of_true (Nat.lt_succ_self _) hzero
  · rw [if_neg (not_and_of_not_right _ hzero), Nat.add_zero]
    exact iff_of_false (lt_irrefl _) hzero

/-- **The retry.** Telegram is never asked twice under one key; and an incident that is due, and of whose count no
delivery has succeeded, is attempted for a recipient in the next run if and only if no attempt under the key has
failed or has been skipped. -/
theorem notification_retried_iff {release : Release} (h : Run.Reachable (notifyStep release) {} db) :
    db.requests.Nodup ∧ ∀ outcome, ∀ incident ∈ db.dueIncidents, incident.status = .open →
      ∀ userId ∈ db.ownerUserIds, userId ≠ "" →
        ((¬ db.deliveredNow incident → db.attempts (eventKey incident userId) <
            (db.processQualityNotifications outcome).attempts (eventKey incident userId)) ↔
          ¬ db.failedBefore (eventKey incident userId)) := by
  have hinv := notifyInv_of_reachable h
  refine ⟨hinv.asked.nodup, fun outcome incident hdue hopen userId huser hne => ?_⟩
  have hnot := not_deliveredNow hinv (mem_of_mem_dueIncidents hdue) hopen
  rw [attempted_iff hdue huser hne, Bool.eq_false_iff, ne_eq, recorded_iff]
  constructor
  · intro hretried hfailed
    exact hretried hnot (Or.inr hfailed)
  · rintro hfailed hnow (⟨d, hd, hsent, hkey⟩ | hbefore)
    · exact hnow ⟨d, hd, hsent, userId, hkey⟩
    · exact hfailed hbefore

namespace Sample

def build : Release := ⟨"build", "metrics"⟩

/-- An evaluation before amoCRM is connected. -/
def evaluation : Evaluation :=
  ⟨10, { connection := none, now := 10, workers := [], failedRaw := 0, oldestRaw := none, failedReports := []
         oldestReportJob := none, activeDeals := 0, factDeals := 0, dealMismatches := 0, historyRows := 0
         transitionRows := 0 }, 10⟩

/-- One administrator is notified, and an incident is confirmed. -/
def alarmed : List NotifyAction :=
  [.settings ⟨true, ⟨true, ["owner"], 30, false⟩, none⟩, .users [⟨"owner", true, true⟩],
    .account "owner" (some true), .token true, .evaluate evaluation]

/-- Telegram does not answer while the incident is sent. -/
def outage : List NotifyAction := alarmed ++ [.run fun _ => .failed]

end Sample

/-- The incident before its first notification. -/
theorem notification_retried_iff_sample :
    ∃ db, Run.Reachable (notifyStep Sample.build) {} db ∧ ∃ incident ∈ db.dueIncidents,
      db.attempts (eventKey incident "owner") <
        (db.processQualityNotifications fun _ => .failed).attempts (eventKey incident "owner") := by
  have hrun : Run.run (notifyStep Sample.build) {} Sample.alarmed = some _ := rfl
  have hreach := Run.reachable_of_run hrun
  refine ⟨_, hreach, _, List.mem_singleton_self _, ?_⟩
  have hiff := (notification_retried_iff hreach).2 (fun _ => .failed) _ (List.mem_singleton_self _) rfl "owner"
    (List.mem_singleton_self _) (by decide)
  refine hiff.2 ?_ ?_
  · rintro ⟨d, hd, -⟩
    exact absurd hd List.not_mem_nil
  · rintro ⟨d, hd, -⟩
    exact absurd hd List.not_mem_nil

/-- After an outage the incident stays due and undelivered, and no run attempts it again. -/
theorem notification_muted :
    ∃ db, Run.Reachable (notifyStep Sample.build) {} db ∧ db.ownerUserIds = ["owner"] ∧
      (∀ d ∈ db.deliveries, d.status ≠ .sent) ∧ ∃ incident ∈ db.dueIncidents, incident.status = .open ∧
        (db.processQualityNotifications fun _ => .delivered).attempts (eventKey incident "owner") =
          db.attempts (eventKey incident "owner") ∧
        (db.processQualityNotifications fun _ => .delivered).requests = db.requests := by
  have hrun : Run.run (notifyStep Sample.build) {} Sample.outage = some _ := rfl
  exact ⟨_, Run.reachable_of_run hrun, rfl, by decide +kernel, _, List.mem_singleton_self _, rfl,
    by decide +kernel, by decide +kernel⟩

end AmoAnalytics.Platform
