import AmoAnalytics.Lib.Collected
import AmoAnalytics.Platform.StaleStages

/-!
# Alerts about mass changes

A user who moves many tasks or deals within a time window is reported to the leaders of the team. A poll reads the
events of its look-back and groups them by the user and by a fixed grid of windows, so that it finds what lies in one
cell of the grid and in one look-back.
-/

namespace AmoAnalytics.Platform.CrmEvents

open JsText Regex

/-! ## Events -/

inductive CrmEventType
  | lead_status_changed
  | task_deadline_changed
  | custom_field_value_changed (externalId : String)
deriving DecidableEq

/-- `CrmEvent`. `entityId` and `createdBy` are what `eventEntityId` and `eventActorExternalId` find in its source, and
`storedAt` is the time of the row. -/
structure CrmEventRow where
  type : CrmEventType
  createdAt : ℤ
  dealId : Option String
  entityId : Option String
  createdBy : String
  storedAt : ℤ
deriving DecidableEq

/-- `FactDealCurrent`, as far as the events find their deals. -/
structure FactDeal where
  dealId : String
  dealExternalId : String

/-- The settings of the notifications. -/
structure CrmEventSettings where
  enabled : Bool
  resumedAt : Option ℤ
  massTaskMoveThreshold : Option ℕ
  massTaskMoveWindowMinutes : Option ℤ

/-- What a poll reads besides the events. `groupName` is the name of the group of a user of amoCRM, by the external
id, and `workField` the field of the work that is taken. -/
structure MassSurroundings where
  env : Surroundings
  settings : CrmEventSettings
  factDeals : List FactDeal
  workField : Option String
  groupName : String → Option JsString
  toLowerCase : JsString → JsString

inductive Moved
  | task
  | deal
deriving DecidableEq

structure MassAlert where
  moved : Moved
  team : Team
  createdBy : String
  bucket : ℤ
deriving DecidableEq

/-! ## `crm-event-notifications.service.ts` -/

section Service

variable (mass : MassSurroundings)

def massTaskMoveThreshold : ℕ := mass.settings.massTaskMoveThreshold.getD 5

def massTaskMoveWindowMinutes : ℤ := mass.settings.massTaskMoveWindowMinutes.getD 15

/-- The start of the look-back of a poll. -/
def pollSince (since : Option ℤ) (now : ℤ) : ℤ :=
  let originalSince := since.getD (now - 15 * 60_000)
  match mass.settings.resumedAt with
  | some resumedAt => if originalSince < resumedAt then resumedAt else originalSince
  | none => originalSince

def polledEventTypes : List CrmEventType :=
  [.lead_status_changed, .task_deadline_changed] ++
    mass.workField.toList.map CrmEventType.custom_field_value_changed

/-- The query of `recentCrmEventsWithFactDeals`; events of one time are in the order of the table. -/
def recentCrmEvents (rows : List CrmEventRow) (since : ℤ) : List CrmEventRow :=
  ((rows.filter fun event => decide (since ≤ event.createdAt) &&
    (polledEventTypes mass).contains event.type).mergeSort
    fun a b => a.createdAt ≤ b.createdAt).take 500

/-- The deal of an event. -/
def eventDeal (event : CrmEventRow) : Option FactDeal :=
  (event.dealId.bind fun id => mass.factDeals.find? (·.dealId = id)).or
    (event.entityId.bind fun id => mass.factDeals.find? (·.dealExternalId = id))

def Moved.type : Moved → CrmEventType
  | .task => .task_deadline_changed
  | .deal => .lead_status_changed

/-- What an event moves. -/
def Moved.item (event : CrmEventRow) : Moved → Option String
  | .task => event.entityId.filter (· ≠ "")
  | .deal => (((eventDeal mass event).map FactDeal.dealId).or event.entityId).filter (· ≠ "")

/-- The key of a notification. -/
def MassAlert.event (alert : MassAlert) : CrmEvent :=
  match alert.moved with
  | .task => .taskMassMove alert.team alert.createdBy alert.bucket
  | .deal => .dealMassMove alert.team alert.createdBy alert.bucket

def MassAlert.eventType (alert : MassAlert) : EventType :=
  match alert.moved, alert.team with
  | .task, .sales => .amo_task_mass_reschedule
  | .task, .csm => .amo_csm_task_mass_reschedule
  | .deal, .sales => .amo_deal_mass_move
  | .deal, .csm => .amo_csm_deal_mass_move

/-- The cell of the grid of windows. -/
def moveBucket (event : CrmEventRow) : ℤ := event.createdAt / (massTaskMoveWindowMinutes mass * 60_000)

/-- The events that are counted, with what they move. -/
def countedMoves (moved : Moved) (events : List CrmEventRow) : List (CrmEventRow × String) :=
  events.filterMap fun event =>
    if event.type = moved.type ∧ event.createdBy ≠ "" ∧ event.createdBy ≠ "0" then
      (moved.item mass event).map fun item => (event, item)
    else none

/-- The groups, each with the ids of what it moves. -/
def moveGroups (moved : Moved) (events : List CrmEventRow) : List ((String × ℤ) × Finset String) :=
  JsMap.collect (fun move : CrmEventRow × String => (move.1.createdBy, moveBucket mass move.1))
    (fun ids move => insert move.2 (ids.getD ∅)) (countedMoves mass moved events) []

def isSalesGroup (name : Option JsString) : Bool :=
  let normalized := normalizeText mass.toLowerCase (name.getD [])
  includes normalized (js "sales") || includes normalized (normalizeText mass.toLowerCase (js "продаж"))

def isCsmGroup (name : Option JsString) : Bool :=
  let normalized := normalizeText mass.toLowerCase (name.getD [])
  includes normalized (js "csm") || includes normalized (normalizeText mass.toLowerCase (js "ксм"))

def isTeamGroup (name : Option JsString) : Team → Bool
  | .sales => isSalesGroup mass name
  | .csm => isCsmGroup mass name

/-- The common body: the alerts of a team about what is moved. -/
def massMoveAlerts (moved : Moved) (team : Team) (events : List CrmEventRow) : List MassAlert :=
  if (teamLeaderUsers mass.env.users team).isEmpty then []
  else
    ((moveGroups mass moved events).filter fun group =>
      isTeamGroup mass (mass.groupName group.1.1) team && decide (massTaskMoveThreshold mass ≤ group.2.card)).map
        fun group => ⟨moved, team, group.1.1, group.1.2⟩

def massTaskDeadlineAlerts := massMoveAlerts mass .task

def massDealStageAlerts := massMoveAlerts mass .deal

/-- The alerts about mass changes of a poll. -/
def massAlerts (rows : List CrmEventRow) (since : Option ℤ) (now : ℤ) : List MassAlert :=
  if mass.settings.enabled then
    let events := recentCrmEvents mass rows (pollSince mass since now)
    massTaskDeadlineAlerts mass .sales events ++ massTaskDeadlineAlerts mass .csm events ++
      massDealStageAlerts mass .sales events ++ massDealStageAlerts mass .csm events
  else []

/-- The notification of an alert. -/
def sendMassAlert (db : List Delivery) (alert : MassAlert) : Option (List Delivery) :=
  (sendNotification mass.env db (teamLeaderUsers mass.env.users alert.team) alert.eventType
    { managerExternalId := some alert.createdBy, team := some alert.team } alert.event).map Prod.fst

def pollMassMoves (rows : List CrmEventRow) (since : Option ℤ) (now : ℤ) (db : List Delivery) :
    Option (List Delivery) :=
  (massAlerts mass rows since now).foldlM (sendMassAlert mass) db

/-- The messages of an alert. -/
def massMessages (alert : MassAlert) : List (DeliveryKey × DeliveryStatus) :=
  targets mass.env (teamLeaderUsers mass.env.users alert.team) alert.eventType
    { managerExternalId := some alert.createdBy, team := some alert.team } alert.event

/-! ## Polls every minute -/

/-- The rows that a poll finds in the table. -/
def storedBy (history : List CrmEventRow) (now : ℤ) : List CrmEventRow := history.filter (·.storedAt ≤ now)

/-- The alerts of the polls that begin at a time and follow every minute. -/
def alertsAt (history : List CrmEventRow) (start : ℤ) (n : ℕ) : List MassAlert :=
  massAlerts mass (storedBy history (start + n * 60_000)) none (start + n * 60_000)

/-- The distinct items that a user has moved. -/
def movedItems (moved : Moved) (createdBy : String) (events : List CrmEventRow) : Finset String :=
  (events.filterMap fun event =>
    if event.type = moved.type ∧ event.createdBy = createdBy then moved.item mass event else none).toFinset

/-- The user has moved as many distinct items as the threshold says within a time span of the window. -/
def MovesMany (history : List CrmEventRow) (moved : Moved) (createdBy : String) : Prop :=
  ∃ first, massTaskMoveThreshold mass ≤ (movedItems mass moved createdBy (history.filter fun event =>
    first ≤ event.createdAt ∧ event.createdAt ≤ first + massTaskMoveWindowMinutes mass * 60_000)).card

/-- A user of a team that has leaders. -/
structure Watched (team : Team) (createdBy : String) : Prop where
  named : createdBy ≠ "" ∧ createdBy ≠ "0"
  member : isTeamGroup mass (mass.groupName createdBy) team = true
  leaders : teamLeaderUsers mass.env.users team ≠ []

/-- Exactly the users who move many items within a window are reported. -/
structure MassDetection (history : List CrmEventRow) (start : ℤ) : Prop where
  complete : ∀ moved createdBy, MovesMany mass history moved createdBy →
    ∃ n, ∃ alert ∈ alertsAt mass history start n, alert.moved = moved ∧ alert.createdBy = createdBy
  sound : ∀ n, ∀ alert ∈ alertsAt mass history start n, MovesMany mass history alert.moved alert.createdBy

/-- The items that a poll counts together: they lie in one cell of the grid, and among the first 500 events of the
look-back. -/
def SeenTogether (history : List CrmEventRow) (start : ℤ) (moved : Moved) (createdBy : String) : Prop :=
  ∃ (n : ℕ) (bucket : ℤ), massTaskMoveThreshold mass ≤ (movedItems mass moved createdBy
    ((recentCrmEvents mass (storedBy history (start + n * 60_000))
      (pollSince mass none (start + n * 60_000))).filter fun event => moveBucket mass event = bucket)).card

end Service

/-! ## The groups of a poll -/

section Groups

variable {mass : MassSurroundings} {moved : Moved} {team : Team} {createdBy : String} {bucket : ℤ}
  {events : List CrmEventRow}

theorem mem_movedItems {item : String} : item ∈ movedItems mass moved createdBy events ↔
    ∃ event ∈ events, event.type = moved.type ∧ event.createdBy = createdBy ∧ moved.item mass event = some item := by
  rw [movedItems, List.mem_toFinset, List.mem_filterMap]
  refine exists_congr fun event => and_congr_right fun _ => ?_
  split_ifs with hmove
  · exact (and_iff_right_of_imp fun _ => hmove.1).symm.trans
      (and_congr_right fun _ => (and_iff_right hmove.2).symm)
  · exact ⟨(nomatch ·), fun h => absurd ⟨h.1, h.2.1⟩ hmove⟩

theorem movedItems_mono {later : List CrmEventRow} (h : ∀ event ∈ events, event ∈ later) :
    movedItems mass moved createdBy events ⊆ movedItems mass moved createdBy later := by
  intro item hitem
  obtain ⟨event, hmem, hmove⟩ := mem_movedItems.1 hitem
  exact mem_movedItems.2 ⟨event, h event hmem, hmove⟩

theorem mem_countedMoves {move : CrmEventRow × String} : move ∈ countedMoves mass moved events ↔
    move.1 ∈ events ∧ (move.1.type = moved.type ∧ move.1.createdBy ≠ "" ∧ move.1.createdBy ≠ "0") ∧
      moved.item mass move.1 = some move.2 := by
  rw [countedMoves, List.mem_filterMap]
  constructor
  · rintro ⟨event, hmem, h⟩
    split_ifs at h with hcounted
    obtain ⟨item, hitem, rfl⟩ := Option.map_eq_some_iff.1 h
    exact ⟨hmem, hcounted, hitem⟩
  · rintro ⟨hmem, hcounted, hitem⟩
    exact ⟨move.1, hmem, by rw [if_pos hcounted, hitem]; rfl⟩

theorem foldl_insert (moves : List (CrmEventRow × String)) (ids : Finset String) :
    moves.foldl (fun ids move => some (insert move.2 (ids.getD ∅))) (some ids) =
      some (ids ∪ (moves.map Prod.snd).toFinset) := by
  induction moves generalizing ids with
  | nil => simp
  | cons move moves ih =>
    rw [List.foldl_cons, Option.getD_some, ih, List.map_cons, List.toFinset_cons, Finset.insert_union,
      Finset.union_insert]

/-- A group has the items that its user has moved in its cell. -/
theorem mem_moveGroups {ids : Finset String} : ((createdBy, bucket), ids) ∈ moveGroups mass moved events ↔
    (createdBy ≠ "" ∧ createdBy ≠ "0") ∧ ids.Nonempty ∧
      ids = movedItems mass moved createdBy (events.filter fun event => moveBucket mass event = bucket) := by
  have hkeys : ((moveGroups mass moved events).map Prod.fst).Nodup := JsMap.nodup_keys_collect _ _ List.nodup_nil
  rw [← JsMap.get?_eq_some_iff hkeys, moveGroups, JsMap.get?_collect]
  change List.foldl _ none _ = some ids ↔ _
  set moves := (countedMoves mass moved events).filter fun move =>
    (move.1.createdBy, moveBucket mass move.1) = (createdBy, bucket) with hmoves
  have hmem : ∀ move, move ∈ moves ↔ (move.1 ∈ events ∧ (move.1.type = moved.type ∧ move.1.createdBy ≠ "" ∧
      move.1.createdBy ≠ "0") ∧ moved.item mass move.1 = some move.2) ∧ move.1.createdBy = createdBy ∧
      moveBucket mass move.1 = bucket := by
    intro move
    rw [hmoves, List.mem_filter, mem_countedMoves, decide_eq_true_eq, Prod.mk.injEq]
  have hitems : createdBy ≠ "" ∧ createdBy ≠ "0" → (moves.map Prod.snd).toFinset =
      movedItems mass moved createdBy (events.filter fun event => moveBucket mass event = bucket) := by
    intro hnamed
    ext item
    rw [List.mem_toFinset, List.mem_map, mem_movedItems]
    constructor
    · rintro ⟨move, hmove, rfl⟩
      obtain ⟨⟨hevent, htype, hitem⟩, hby, hbucket⟩ := (hmem move).1 hmove
      exact ⟨move.1, List.mem_filter.2 ⟨hevent, decide_eq_true hbucket⟩, htype.1, hby, hitem⟩
    · rintro ⟨event, hevent, htype, hby, hitem⟩
      obtain ⟨hevent, hbucket⟩ := List.mem_filter.1 hevent
      exact ⟨(event, item), (hmem _).2 ⟨⟨hevent, ⟨htype, hby ▸ hnamed⟩, hitem⟩, hby, of_decide_eq_true hbucket⟩, rfl⟩
  cases hcase : moves with
  | nil =>
    rw [hcase] at hitems
    refine ⟨fun h => (nomatch h), fun ⟨hnamed, hnonempty, heq⟩ => ?_⟩
    rw [heq, ← hitems hnamed] at hnonempty
    exact absurd hnonempty (by simp)
  | cons move rest =>
    obtain ⟨⟨-, htype, -⟩, hby, -⟩ := (hmem move).1 (hcase ▸ List.mem_cons_self)
    have hnamed : createdBy ≠ "" ∧ createdBy ≠ "0" := hby ▸ htype.2
    have hfold : List.foldl (fun ids move => some (insert move.2 (ids.getD ∅))) none (move :: rest) =
        some ((move :: rest).map Prod.snd).toFinset := by
      rw [List.foldl_cons, foldl_insert, List.map_cons, List.toFinset_cons, Option.getD_none, Finset.insert_union,
        Finset.empty_union]
    rw [hcase] at hitems
    rw [← hitems hnamed]
    refine ⟨fun h => ?_, fun ⟨_, _, heq⟩ => hfold.trans (congrArg some heq.symm)⟩
    have heq := Option.some.inj (hfold.symm.trans h)
    exact ⟨hnamed, heq ▸ ⟨move.2, by simp⟩, heq.symm⟩

/-- A user of the team is reported for a cell if the items in it reach the threshold. -/
theorem mem_massMoveAlerts (hthreshold : 0 < massTaskMoveThreshold mass) {alert : MassAlert} :
    alert ∈ massMoveAlerts mass moved team events ↔ alert.moved = moved ∧ alert.team = team ∧
      Watched mass team alert.createdBy ∧ massTaskMoveThreshold mass ≤ (movedItems mass moved alert.createdBy
        (events.filter fun event => moveBucket mass event = alert.bucket)).card := by
  unfold massMoveAlerts
  split_ifs with hleaders
  · refine ⟨fun h => absurd h List.not_mem_nil, fun ⟨_, _, hwatched, _⟩ => ?_⟩
    exact absurd (List.isEmpty_iff.1 hleaders) hwatched.leaders
  · rw [List.mem_map]
    constructor
    · rintro ⟨⟨⟨user, cell⟩, ids⟩, hgroup, rfl⟩
      obtain ⟨hmem, hreported⟩ := List.mem_filter.1 hgroup
      obtain ⟨hteam, hcount⟩ := Bool.and_eq_true _ _ ▸ hreported
      obtain ⟨hnamed, -, hids⟩ := mem_moveGroups.1 hmem
      refine ⟨rfl, rfl, ⟨hnamed, hteam, fun h => hleaders (List.isEmpty_iff.2 h)⟩, ?_⟩
      exact hids ▸ of_decide_eq_true hcount
    · rintro ⟨rfl, rfl, hwatched, hcount⟩
      refine ⟨((alert.createdBy, alert.bucket), _), List.mem_filter.2 ⟨mem_moveGroups.2
        ⟨hwatched.named, Finset.card_pos.1 (hthreshold.trans_le hcount), rfl⟩, ?_⟩, rfl⟩
      rw [Bool.and_eq_true]
      exact ⟨hwatched.member, decide_eq_true hcount⟩

theorem mem_massAlerts (hthreshold : 0 < massTaskMoveThreshold mass) (henabled : mass.settings.enabled = true)
    {rows : List CrmEventRow} {since : Option ℤ} {now : ℤ} {alert : MassAlert} :
    alert ∈ massAlerts mass rows since now ↔ Watched mass alert.team alert.createdBy ∧
      massTaskMoveThreshold mass ≤ (movedItems mass alert.moved alert.createdBy
        ((recentCrmEvents mass rows (pollSince mass since now)).filter fun event =>
          moveBucket mass event = alert.bucket)).card := by
  unfold massAlerts
  rw [if_pos henabled]
  simp only [List.mem_append, massTaskDeadlineAlerts, massDealStageAlerts, mem_massMoveAlerts hthreshold]
  constructor
  · rintro (((⟨hmoved, hteam, h⟩ | ⟨hmoved, hteam, h⟩) | ⟨hmoved, hteam, h⟩) | ⟨hmoved, hteam, h⟩) <;>
      exact hteam.symm ▸ hmoved.symm ▸ h
  · intro h
    obtain ⟨moved, team, createdBy, bucket⟩ := alert
    cases moved <;> cases team
    · exact .inl (.inl (.inl ⟨rfl, rfl, h⟩))
    · exact .inl (.inl (.inr ⟨rfl, rfl, h⟩))
    · exact .inl (.inr ⟨rfl, rfl, h⟩)
    · exact .inr ⟨rfl, rfl, h⟩

end Groups

/-! ## Deliveries -/

/-- A poll and what it reads. -/
structure MassPoll where
  mass : MassSurroundings
  rows : List CrmEventRow
  since : Option ℤ
  now : ℤ

def MassPoll.messages (poll : MassPoll) : List (DeliveryKey × DeliveryStatus) :=
  (massAlerts poll.mass poll.rows poll.since poll.now).flatMap (massMessages poll.mass)

def MassPoll.run (db : List Delivery) (poll : MassPoll) : Option (List Delivery) :=
  pollMassMoves poll.mass poll.rows poll.since poll.now db

/-- What the sending of messages leaves behind: a record of each and nothing else beside the records before it. -/
structure Delivered (messages : List (DeliveryKey × DeliveryStatus)) (db db' : List Delivery) : Prop where
  kept : db <+: db'
  once : (db.map Delivery.eventKey).Nodup → (db'.map Delivery.eventKey).Nodup
  recorded : ∀ message ∈ messages, message.1 ∈ db'.map Delivery.eventKey
  sent : ∀ delivery ∈ db', delivery ∈ db ∨ (delivery.eventKey, delivery.status) ∈ messages

section Deliveries

variable {messages later : List (DeliveryKey × DeliveryStatus)} {db db' db'' : List Delivery}

theorem Delivered.append (h : Delivered messages db db') (h' : Delivered later db' db'') :
    Delivered (messages ++ later) db db'' where
  kept := h.kept.trans h'.kept
  once := fun hnodup => h'.once (h.once hnodup)
  recorded message hmessage := (List.mem_append.1 hmessage).elim
    (fun hfirst => (h'.kept.map _).subset (h.recorded message hfirst)) (h'.recorded message)
  sent delivery hmem := by
    rcases h'.sent delivery hmem with hold | hnew
    · exact (h.sent delivery hold).imp_right (List.mem_append_left _)
    · exact Or.inr (List.mem_append_right _ hnew)

theorem sendTargets_nodup (messages : List (DeliveryKey × DeliveryStatus)) (h : (db.map Delivery.eventKey).Nodup) :
    ((sendTargets db messages).1.map Delivery.eventKey).Nodup := by
  induction messages generalizing db with
  | nil => exact h
  | cons message messages ih => exact ih (sendUnlessRecorded_nodup h)

theorem delivered_targets (db : List Delivery) (messages : List (DeliveryKey × DeliveryStatus)) :
    Delivered messages db (sendTargets db messages).1 := by
  obtain ⟨added, hadded, hnew, hrecorded⟩ := sendTargets_spec db messages
  refine ⟨hadded ▸ List.prefix_append db added, sendTargets_nodup messages, hadded ▸ hrecorded,
    fun delivery hmem => ?_⟩
  rw [hadded] at hmem
  exact (List.mem_append.1 hmem).imp_right fun hadd => (hnew delivery hadd).1

/-- One sending after the other. -/
theorem Delivered.foldlM {ι : Type} {send : List Delivery → ι → Option (List Delivery)}
    {said : ι → List (DeliveryKey × DeliveryStatus)} (items : List ι)
    (hsend : ∀ item ∈ items, ∀ db, ∃ db', send db item = some db' ∧ Delivered (said item) db db') (db : List Delivery) :
    ∃ db', items.foldlM send db = some db' ∧ Delivered (items.flatMap said) db db' := by
  induction items generalizing db with
  | nil => exact ⟨db, rfl, List.prefix_rfl, id, fun _ h => absurd h List.not_mem_nil, fun _ h => Or.inl h⟩
  | cons item items ih =>
    obtain ⟨db₁, hfirst, hitem⟩ := hsend item List.mem_cons_self db
    obtain ⟨db₂, hrest, hitems⟩ := ih (fun other hother => hsend other (List.mem_cons_of_mem item hother)) db₁
    refine ⟨db₂, ?_, hitem.append hitems⟩
    rw [List.foldlM_cons, hfirst]
    exact hrest

end Deliveries

/-! ## Detection -/

section Detection

variable {mass : MassSurroundings} {history : List CrmEventRow} {start : ℤ} {moved : Moved} {createdBy : String}

theorem mem_recentCrmEvents {rows : List CrmEventRow} {since : ℤ} {event : CrmEventRow}
    (h : event ∈ recentCrmEvents mass rows since) : event ∈ rows ∧ since ≤ event.createdAt := by
  obtain ⟨hmem, hrecent⟩ := List.mem_filter.1 (List.mem_mergeSort.1 (List.mem_of_mem_take h))
  exact ⟨hmem, of_decide_eq_true (Bool.and_eq_true _ _ ▸ hrecent).1⟩

/-- A cell of the grid is a time span of the window. -/
theorem movesMany_of_cell (hwindow : 0 < massTaskMoveWindowMinutes mass) {events : List CrmEventRow} {bucket : ℤ}
    (hevents : ∀ event ∈ events, event ∈ history) (hcount : massTaskMoveThreshold mass ≤ (movedItems mass moved
      createdBy (events.filter fun event => moveBucket mass event = bucket)).card) :
    MovesMany mass history moved createdBy := by
  refine ⟨bucket * (massTaskMoveWindowMinutes mass * 60_000), hcount.trans (Finset.card_le_card (movedItems_mono ?_))⟩
  intro event hevent
  obtain ⟨hmem, hbucket⟩ := List.mem_filter.1 hevent
  have hcell : moveBucket mass event = bucket := of_decide_eq_true hbucket
  have hlow := Int.ediv_mul_le event.createdAt (by omega : massTaskMoveWindowMinutes mass * 60_000 ≠ 0)
  have hhigh := Int.lt_ediv_add_one_mul_self event.createdAt (by omega : 0 < massTaskMoveWindowMinutes mass * 60_000)
  unfold moveBucket at hcell
  rw [hcell] at hlow hhigh
  refine List.mem_filter.2 ⟨hevents event hmem, decide_eq_true ⟨hlow, ?_⟩⟩
  linarith [add_one_mul bucket (massTaskMoveWindowMinutes mass * 60_000)]

/-- An alert of a poll names a user who has moved many items within a window. -/
theorem alertsAt_sound (hthreshold : 0 < massTaskMoveThreshold mass) (hwindow : 0 < massTaskMoveWindowMinutes mass)
    (henabled : mass.settings.enabled = true) {n : ℕ} {alert : MassAlert}
      (h : alert ∈ alertsAt mass history start n) :
    MovesMany mass history alert.moved alert.createdBy :=
  movesMany_of_cell hwindow (fun _ hevent => (List.mem_filter.1 (mem_recentCrmEvents hevent).1).1)
    ((mem_massAlerts hthreshold henabled).1 h).2

/-- A user is reported if there is somebody to tell, and a poll counts enough items together. -/
theorem exists_alert_iff (hthreshold : 0 < massTaskMoveThreshold mass) (henabled : mass.settings.enabled = true) :
    (∃ n, ∃ alert ∈ alertsAt mass history start n, alert.moved = moved ∧ alert.createdBy = createdBy) ↔
      (∃ team, Watched mass team createdBy) ∧ SeenTogether mass history start moved createdBy := by
  constructor
  · rintro ⟨n, alert, halert, rfl, rfl⟩
    obtain ⟨hwatched, hcount⟩ := (mem_massAlerts hthreshold henabled).1 halert
    exact ⟨⟨alert.team, hwatched⟩, n, alert.bucket, hcount⟩
  · rintro ⟨⟨team, hwatched⟩, n, bucket, hcount⟩
    exact ⟨n, ⟨moved, team, createdBy, bucket⟩, (mem_massAlerts hthreshold henabled).2 ⟨hwatched, hcount⟩, rfl, rfl⟩

/-- What is moved in one cell of the grid within fourteen minutes is counted together, unless there are more than 500
events in a look-back. -/
theorem seenTogether_of_close (bucket : ℤ) (hresumed : mass.settings.resumedAt = none) {first last : ℤ}
    (hspan : last ≤ first + 14 * 60_000) (hstart : start ≤ last)
    (hstored : ∀ event ∈ history, event.createdAt ≤ last → event.storedAt ≤ last)
    (hfew : ∀ now, ((storedBy history now).filter (now - 15 * 60_000 ≤ ·.createdAt)).length ≤ 500)
    (hcount : massTaskMoveThreshold mass ≤ (movedItems mass moved createdBy (history.filter fun event =>
      moveBucket mass event = bucket ∧ first ≤ event.createdAt ∧ event.createdAt ≤ last)).card) :
    SeenTogether mass history start moved createdBy := by
  -- The first poll after the last of the events.
  obtain ⟨n, hafter, hbefore⟩ : ∃ n : ℕ, last ≤ start + n * 60_000 ∧ start + n * 60_000 < last + 60_000 :=
    ⟨((last - start + 59_999) / 60_000).toNat, by omega, by omega⟩
  refine ⟨n, bucket, hcount.trans (Finset.card_le_card fun item hitem => ?_)⟩
  obtain ⟨event, hmem, htype, hby, hevent⟩ := mem_movedItems.1 hitem
  obtain ⟨hhistory, hplace⟩ := List.mem_filter.1 hmem
  obtain ⟨hbucket, hfirst, hlast⟩ := of_decide_eq_true hplace
  have hsince : pollSince mass none (start + n * 60_000) = start + n * 60_000 - 15 * 60_000 := by
    unfold pollSince
    rw [hresumed]
    rfl
  refine mem_movedItems.2 ⟨event, List.mem_filter.2 ⟨?_, decide_eq_true hbucket⟩, htype, hby, hevent⟩
  have hpolled : event.type ∈ polledEventTypes mass := by
    rw [htype]
    cases moved <;> simp [polledEventTypes, Moved.type]
  unfold recentCrmEvents
  rw [hsince, List.take_of_length_le]
  · refine List.mem_mergeSort.2 (List.mem_filter.2 ⟨List.mem_filter.2 ⟨hhistory, decide_eq_true ?_⟩, ?_⟩)
    · exact (hstored event hhistory hlast).trans hafter
    · rw [Bool.and_eq_true, List.contains_iff_mem]
      exact ⟨decide_eq_true (by omega), hpolled⟩
  · rw [List.length_mergeSort]
    refine le_trans ?_ (hfew (start + n * 60_000))
    rw [← List.filter_filter]
    exact (List.filter_sublist.filter _).length_le

end Detection

/-! ## A window that is longer than the look-back -/

/-- The leader of the sales team is told about two changes within an hour. -/
def hourlyMoves : MassSurroundings where
  env := oneLeader
  settings := ⟨true, none, some 2, some 60⟩
  factDeals := []
  workField := none
  groupName := fun _ => some (js "sales")
  toLowerCase := id

/-- Moves of two tasks, at a minute of the first hour each. -/
def twoMoves (first second : ℤ) : List CrmEventRow :=
  [⟨.task_deadline_changed, first * 60_000, none, some "1", "7", first * 60_000⟩,
    ⟨.task_deadline_changed, second * 60_000, none, some "2", "7", second * 60_000⟩]

end AmoAnalytics.Platform.CrmEvents
