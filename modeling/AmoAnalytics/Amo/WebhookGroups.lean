import AmoAnalytics.Lib.JsMap
import AmoAnalytics.Lib.JsText
import AmoAnalytics.Amo.DealTable

/-!
# The groups of a webhook job

`runWebhookJob` of `amo-sync.service.ts` groups the events of its batch by entity and handles each group once: a
group with a delete action marks the entity deleted; for every other group the entity is fetched from the source and
written.
-/

namespace AmoAnalytics.Amo

open JsText

/-! ## Events and groups -/

/-- An event of the inbox. `payloadExternalId` is what `webhookPayloadExternalId` finds in its payload, and
`payloadLeadId` what `webhookTaskLeadExternalId` finds. -/
structure WebhookEvent where
  id : String
  entity : String
  action : String
  externalId : Option String := none
  payloadExternalId : Option String := none
  payloadLeadId : Option String := none

structure WebhookGroup where
  ids : List String := []
  entity : String
  externalId : Option String
  actions : List String := []
  payloadLeadIds : List (Option String) := []

variable (toLowerCase : String → String)

/-- `text.includes(part)`. -/
def includesText (text part : String) : Bool := includes (js text) (js part)

def normalizeWebhookEntity (entity : String) : String :=
  let normalized := toLowerCase entity
  if includesText normalized "lead" then "leads"
  else if includesText normalized "task" then "tasks"
  else if includesText normalized "contact" then "contacts"
  else if includesText normalized "message" then "contacts"
  else if includesText normalized "compan" then "companies"
  else if includesText normalized "customer" then "customers"
  else normalized

namespace WebhookEvent

variable (e : WebhookEvent)

/-- The entity of the event at the source. -/
def target : Option String := e.externalId.or e.payloadExternalId

/-- The key of the group: an event without an external id is a group of its own. -/
def groupKey : String × (String ⊕ String) :=
  (normalizeWebhookEntity toLowerCase e.entity, e.target.elim (.inr e.id) .inl)

end WebhookEvent

abbrev GroupMap := List ((String × (String ⊕ String)) × WebhookGroup)

/-- The event joins its group. -/
def addWebhookEvent (groups : GroupMap) (e : WebhookEvent) : GroupMap :=
  let key := e.groupKey toLowerCase
  let group := (JsMap.get? key groups).getD { entity := key.1, externalId := e.target }
  JsMap.set key { group with
    ids := group.ids ++ [e.id]
    actions := JsMap.distinct (group.actions ++ [toLowerCase e.action])
    payloadLeadIds := group.payloadLeadIds ++ [e.payloadLeadId] } groups

def groupWebhookEvents (events : List WebhookEvent) : List WebhookGroup :=
  JsMap.values (events.foldl (addWebhookEvent toLowerCase) [])

/-! ## Stored entities -/

inductive EntityKind
  | leads
  | tasks
  | contacts
  | companies
  | customers
  deriving DecidableEq

def EntityKind.name : EntityKind → String
  | .leads => "leads"
  | .tasks => "tasks"
  | .contacts => "contacts"
  | .companies => "companies"
  | .customers => "customers"

/-- The tables of the entities; a deal is marked when it is deleted, a row of another table is removed. -/
structure CrmStore where
  deals : DealTable
  tasks : List String := []
  contacts : List String := []
  companies : List String := []
  customers : List String := []

/-- `upsert` of a row with an external id. -/
def upsertId (ids : List String) (id : String) : List String := if ids.contains id then ids else ids ++ [id]

/-- `deleteMany` of an external id. -/
def deleteId (ids : List String) (id : String) : List String := ids.filter (· ≠ id)

namespace CrmStore

/-- The external ids of the live rows. -/
def live (store : CrmStore) : EntityKind → List String
  | .leads => store.deals.live
  | .tasks => store.tasks
  | .contacts => store.contacts
  | .companies => store.companies
  | .customers => store.customers

/-- `deal.updateMany` of an external id. -/
def deleteDeal (store : CrmStore) (externalId : String) (now : ℤ) : CrmStore :=
  { store with deals := store.deals.update (fun row => row.externalId = externalId) (some now) }

end CrmStore

/-! ## The source -/

/-- The answer to the request of one entity: a record, an answer without an id, a 404, or another error. -/
inductive EntityAnswer (α : Type)
  | found (record : α)
  | empty
  | notFound
  | failed

/-- A lead with the contacts it names; those that are fetched are written. -/
structure LeadRecord where
  lead : Lead
  contacts : List String := []

structure TaskRecord where
  id : String
  leadId : Option String := none

structure CrmSource where
  lead : String → EntityAnswer LeadRecord
  task : String → EntityAnswer TaskRecord
  contact : String → EntityAnswer String
  company : String → EntityAnswer String
  customer : String → EntityAnswer String

/-- The store after a call, and whether the call throws. -/
abbrev Handled := CrmStore × Bool

/-! ## One group -/

section Processing

variable (source : CrmSource) (now : ℤ)

def markWebhookEntityDeleted (entity externalId : String) (store : CrmStore) : CrmStore :=
  if entity = "leads" then store.deleteDeal externalId now else store

def syncLeadEmbeddedContacts (contacts : List String) (store : CrmStore) : CrmStore :=
  contacts.foldl (fun store contactId =>
    match source.contact contactId with
    | .found id => { store with contacts := upsertId store.contacts id }
    | _ => store) store

def syncSingleLead (externalId : String) (store : CrmStore) : Handled :=
  match source.lead externalId with
  | .found record =>
    let store := syncLeadEmbeddedContacts source record.contacts store
    ({ store with deals := store.deals.upsertDeal record.lead }, false)
  | .empty => (markWebhookEntityDeleted now "leads" externalId store, false)
  | .notFound => (markWebhookEntityDeleted now "leads" externalId store, false)
  | .failed => (store, true)

/-- The lead of a task, when there is one. -/
def syncTaskLead (leadId : Option String) (store : CrmStore) : Handled :=
  match leadId.filter (· ≠ "") with
  | some leadId => syncSingleLead source now leadId store
  | none => (store, false)

/-- `webhookTaskLeadExternalId`: the first payload that names a lead. -/
def webhookTaskLeadExternalId (payloadLeadIds : List (Option String)) : Option String :=
  (payloadLeadIds.filterMap fun leadId => leadId.filter (· ≠ "")).head?

def syncSingleTask (externalId : String) (payloadLeadIds : List (Option String)) (store : CrmStore) : Handled :=
  match source.task externalId with
  | .found task =>
    let store := { store with tasks := upsertId store.tasks task.id }
    syncTaskLead source now (task.leadId.or (webhookTaskLeadExternalId payloadLeadIds)) store
  | .empty =>
    let store := { store with tasks := deleteId store.tasks externalId }
    syncTaskLead source now (webhookTaskLeadExternalId payloadLeadIds) store
  | .notFound => ({ store with tasks := deleteId store.tasks externalId }, false)
  | .failed => (store, true)

/-- `syncSingleContact`, `syncSingleCompany` and `syncSingleCustomer`: a record is written, a 404 removes the row. -/
def syncSingleRow (answer : EntityAnswer String) (externalId : String) (rows : List String) : List String × Bool :=
  match answer with
  | .found id => (upsertId rows id, false)
  | .empty => (rows, false)
  | .notFound => (deleteId rows externalId, false)
  | .failed => (rows, true)

def syncSingleContact (externalId : String) (store : CrmStore) : Handled :=
  let r := syncSingleRow (source.contact externalId) externalId store.contacts
  ({ store with contacts := r.1 }, r.2)

def syncSingleCompany (externalId : String) (store : CrmStore) : Handled :=
  let r := syncSingleRow (source.company externalId) externalId store.companies
  ({ store with companies := r.1 }, r.2)

def syncSingleCustomer (externalId : String) (store : CrmStore) : Handled :=
  let r := syncSingleRow (source.customer externalId) externalId store.customers
  ({ store with customers := r.1 }, r.2)

/-- Some event of the group deletes. -/
def WebhookGroup.deletes (group : WebhookGroup) : Bool := group.actions.any fun action => includesText action "delete"

def processWebhookGroup (group : WebhookGroup) (store : CrmStore) : Handled :=
  match group.externalId.filter (· ≠ "") with
  | none => (store, false)
  | some externalId =>
    if group.deletes then (markWebhookEntityDeleted now group.entity externalId store, false)
    else if group.entity = "leads" then syncSingleLead source now externalId store
    else if group.entity = "tasks" then syncSingleTask source now externalId group.payloadLeadIds store
    else if group.entity = "contacts" then syncSingleContact source externalId store
    else if group.entity = "companies" then syncSingleCompany source externalId store
    else if group.entity = "customers" then syncSingleCustomer source externalId store
    else (store, false)

/-- The loop of `runWebhookJob`: a group that throws does not stop the others. -/
def processWebhookGroups (groups : List WebhookGroup) (store : CrmStore) : CrmStore :=
  groups.foldl (fun store group => (processWebhookGroup source now group store).1) store

end Processing

/-! ## Every event has its group -/

variable {toLowerCase}

theorem WebhookEvent.target_eq (e : WebhookEvent) :
    e.target = (e.groupKey toLowerCase).2.elim some fun _ => none := by
  unfold WebhookEvent.groupKey
  cases e.target <;> rfl

/-- The groups carry the entity of their key. -/
def Keyed (groups : GroupMap) : Prop :=
  ∀ key group, JsMap.get? key groups = some group →
    group.entity = key.1 ∧ group.externalId = key.2.elim some fun _ => none

/-- The event is in the group of its key. -/
def Joined (toLowerCase : String → String) (groups : GroupMap) (e : WebhookEvent) : Prop :=
  ∃ group, JsMap.get? (e.groupKey toLowerCase) groups = some group ∧ e.id ∈ group.ids ∧
    toLowerCase e.action ∈ group.actions

theorem Keyed.add {groups : GroupMap} (h : Keyed groups) (e : WebhookEvent) :
    Keyed (addWebhookEvent toLowerCase groups e) := by
  intro key group hget
  unfold addWebhookEvent at hget
  dsimp only at hget
  rw [JsMap.get?_set] at hget
  split_ifs at hget with hkey
  · obtain rfl := Option.some.inj hget
    subst hkey
    cases hold : JsMap.get? (e.groupKey toLowerCase) groups with
    | none => exact ⟨rfl, e.target_eq⟩
    | some old => exact h _ old hold
  · exact h key group hget

theorem Joined.add {groups : GroupMap} {e : WebhookEvent} (h : Joined toLowerCase groups e) (e' : WebhookEvent) :
    Joined toLowerCase (addWebhookEvent toLowerCase groups e') e := by
  obtain ⟨group, hget, hid, haction⟩ := h
  unfold Joined addWebhookEvent
  dsimp only
  rw [JsMap.get?_set]
  split_ifs with hkey
  · rw [hkey, hget]
    exact ⟨_, rfl, List.mem_append_left _ hid, JsMap.mem_distinct.2 (List.mem_append_left _ haction)⟩
  · exact ⟨group, hget, hid, haction⟩

theorem joined_add (groups : GroupMap) (e : WebhookEvent) :
    Joined toLowerCase (addWebhookEvent toLowerCase groups e) e := by
  unfold Joined addWebhookEvent
  dsimp only
  rw [JsMap.get?_set, if_pos rfl]
  exact ⟨_, rfl, List.mem_append_right _ (List.mem_singleton_self _),
    JsMap.mem_distinct.2 (List.mem_append_right _ (List.mem_singleton_self _))⟩

/-- The group of an event of the batch. -/
theorem exists_group {events : List WebhookEvent} {e : WebhookEvent} (he : e ∈ events) :
    ∃ group ∈ groupWebhookEvents toLowerCase events, e.id ∈ group.ids ∧
      group.entity = normalizeWebhookEntity toLowerCase e.entity ∧ group.externalId = e.target ∧
      toLowerCase e.action ∈ group.actions := by
  have hfold : ∀ (events : List WebhookEvent) (groups : GroupMap), Keyed groups →
      Keyed (events.foldl (addWebhookEvent toLowerCase) groups) ∧
        ∀ e, (e ∈ events ∨ Joined toLowerCase groups e) →
          Joined toLowerCase (events.foldl (addWebhookEvent toLowerCase) groups) e := by
    intro events
    induction events with
    | nil => exact fun groups h => ⟨h, fun e he => he.resolve_left List.not_mem_nil⟩
    | cons a events ih =>
      intro groups h
      obtain ⟨hkeyed, hjoined⟩ := ih (addWebhookEvent toLowerCase groups a) (h.add a)
      refine ⟨hkeyed, fun e he => hjoined e ?_⟩
      rcases he with he | he
      · rcases List.mem_cons.1 he with rfl | he
        · exact Or.inr (joined_add groups e)
        · exact Or.inl he
      · exact Or.inr (he.add a)
  obtain ⟨hkeyed, hjoined⟩ := hfold events [] nofun
  obtain ⟨group, hget, hid, haction⟩ := hjoined e (Or.inl he)
  obtain ⟨hentity, hexternal⟩ := hkeyed _ group hget
  have hmem : group ∈ groupWebhookEvents toLowerCase events := List.mem_map.2 ⟨_, JsMap.mem_of_get? hget, rfl⟩
  exact ⟨group, hmem, hid, hentity, hexternal.trans e.target_eq.symm, haction⟩

/-! ## Deletes -/

/-- The source that has none of the entities any more. -/
def missingSource : CrmSource where
  lead _ := .notFound
  task _ := .notFound
  contact _ := .notFound
  company _ := .notFound
  customer _ := .notFound

/-- The store after the entity was asked for and not found. -/
def afterNotFound (kind : EntityKind) (now : ℤ) (externalId : String) (store : CrmStore) : CrmStore :=
  (processWebhookGroup missingSource now { entity := kind.name, externalId := some externalId } store).1

section Deletes

variable {kind : EntityKind} {now : ℤ} {externalId : String} {store : CrmStore} {group : WebhookGroup}

theorem mem_deleteId {ids : List String} {id : String} :
    id ∈ deleteId ids externalId ↔ id ∈ ids ∧ id ≠ externalId := by
  simp [deleteId]

/-- A missing entity has no live row afterwards. -/
theorem not_live_afterNotFound (hid : externalId ≠ "") :
    externalId ∉ (afterNotFound kind now externalId store).live kind := by
  unfold afterNotFound processWebhookGroup
  rw [Option.filter_some, if_pos (by simpa using hid)]
  cases kind with
  | leads =>
    show externalId ∉ (store.deals.update _ _).live
    simp only [DealTable.mem_live, DealTable.update, Table.mem_updateWhere, not_exists, not_and]
    rintro _ ⟨row, -, rfl⟩
    split_ifs with hrow
    · intro hlive
      cases hlive
    · exact fun _ heq => hrow (by simpa using heq)
  | tasks | contacts | companies | customers => exact fun h => (mem_deleteId.1 h).2 rfl

/-- What a delete does: nothing, but for a deal. -/
theorem process_delete (source : CrmSource) (hid : externalId ≠ "") (hdeletes : group.deletes = true)
    (hgroup : group.externalId = some externalId) (hentity : group.entity = kind.name) :
    (processWebhookGroup source now group store).1 =
      if kind = .leads then afterNotFound .leads now externalId store else store := by
  unfold afterNotFound processWebhookGroup
  rw [hgroup, Option.filter_some, if_pos (by simpa using hid)]
  dsimp only
  rw [if_pos hdeletes, hentity]
  cases kind <;> rfl

theorem afterNotFound_of_not_mem (hid : externalId ≠ "") (hkind : kind ≠ .leads) (h : externalId ∉ store.live kind) :
    afterNotFound kind now externalId store = store := by
  have hsame : ∀ ids : List String, externalId ∉ ids → deleteId ids externalId = ids := fun ids h =>
    List.filter_eq_self.2 fun id hmem => decide_eq_true fun heq => h (heq ▸ hmem)
  unfold afterNotFound processWebhookGroup
  rw [Option.filter_some, if_pos (by simpa using hid)]
  cases kind with
  | leads => exact absurd rfl hkind
  | tasks => exact congrArg (fun rows => { store with tasks := rows }) (hsame _ h)
  | contacts => exact congrArg (fun rows => { store with contacts := rows }) (hsame _ h)
  | companies => exact congrArg (fun rows => { store with companies := rows }) (hsame _ h)
  | customers => exact congrArg (fun rows => { store with customers := rows }) (hsame _ h)

end Deletes

/-- **A delete event deletes deals only.** The group of a delete event leaves no live row of its entity, and the store
of the path that finds the entity missing at the source, if and only if the entity is a deal or had no live row. -/
theorem webhook_delete_iff (source : CrmSource) (now : ℤ) (store : CrmStore) {events : List WebhookEvent}
    {e : WebhookEvent} (he : e ∈ events) {kind : EntityKind}
    (hkind : normalizeWebhookEntity toLowerCase e.entity = kind.name)
    (haction : includesText (toLowerCase e.action) "delete" = true) {externalId : String}
    (htarget : e.target = some externalId) (hid : externalId ≠ "") :
    ∃ group ∈ groupWebhookEvents toLowerCase events, e.id ∈ group.ids ∧
      ((externalId ∉ (processWebhookGroup source now group store).1.live kind ∧
          (processWebhookGroup source now group store).1 = afterNotFound kind now externalId store) ↔
        kind = .leads ∨ externalId ∉ store.live kind) := by
  obtain ⟨group, hgroup, hmem, hentity, hexternal, hactions⟩ := exists_group he
  have hdeletes : group.deletes = true := List.any_eq_true.2 ⟨_, hactions, haction⟩
  refine ⟨group, hgroup, hmem, ?_⟩
  rw [process_delete source hid hdeletes (hexternal.trans htarget) (hentity.trans hkind)]
  by_cases hleads : kind = .leads
  · subst hleads
    rw [if_pos rfl]
    exact ⟨fun _ => Or.inl rfl, fun _ => ⟨not_live_afterNotFound hid, rfl⟩⟩
  · rw [if_neg hleads]
    exact ⟨fun h => Or.inr h.1, fun h => ⟨h.resolve_left hleads,
      (afterNotFound_of_not_mem hid hleads (h.resolve_left hleads)).symm⟩⟩

namespace Sample

/-- A batch with the deletion of one task. -/
def deletedTask : WebhookEvent := { id := "event", entity := "task", action := "delete", externalId := some "7" }

def taskStore : CrmStore := { deals := .empty, tasks := ["7"] }

end Sample

theorem webhook_delete_sample :
    ∃ group ∈ groupWebhookEvents id [Sample.deletedTask], "event" ∈ group.ids ∧
      (("7" ∉ (processWebhookGroup missingSource 0 group Sample.taskStore).1.live .tasks ∧
          (processWebhookGroup missingSource 0 group Sample.taskStore).1 =
            afterNotFound .tasks 0 "7" Sample.taskStore) ↔
        EntityKind.tasks = .leads ∨ "7" ∉ Sample.taskStore.live .tasks) :=
  webhook_delete_iff missingSource 0 Sample.taskStore (List.mem_singleton_self Sample.deletedTask)
    (by decide +kernel) (by decide +kernel) rfl (by decide)

/-- The task is still stored after its deletion was processed; when the source is asked, it is removed. -/
theorem deleted_task_stays :
    "7" ∈ (processWebhookGroups missingSource 0 (groupWebhookEvents id [Sample.deletedTask]) Sample.taskStore).tasks ∧
      "7" ∉ (afterNotFound .tasks 0 "7" Sample.taskStore).tasks :=
  ⟨by decide +kernel, by decide +kernel⟩

end AmoAnalytics.Amo
