import AmoAnalytics.Lib.Table
import AmoAnalytics.Lib.Workers
import AmoAnalytics.Workspaces.ShipmentLinkPolicy

/-!
# Commercial shipment links

`CommercialLinksService.reconcile` links shipments to the sale that they come from, statement by statement;
`WorkspaceLinksAdminController.resolve` lets an administrator confirm a link. The deals change at any time.
The transaction of `resolve` writes and commits in one step: until it commits no other statement sees its
write or passes its row lock.
-/

namespace AmoAnalytics.Workspaces

open JsText

/-! ## Tables -/

/-- `Deal`, with `deletedAt` as a flag. -/
structure Deal where
  card : Card
  deleted : Bool

/-- A payment event of a deal, with the department of its stage. -/
structure Paid where
  id : String
  at_ : ℤ
  departmentKey : String
  deriving DecidableEq

inductive LinkStatus
  | confirmed
  | allocationRequired
  | ambiguous
  | unresolved
  deriving DecidableEq

/-- The columns of `CommercialShipmentLink` that `reconcile` and `resolve` write. -/
structure LinkData where
  saleDealId : Option String
  managerId : Option String
  departmentKey : Option String
  status : LinkStatus
  source : String
  effectiveAt : ℤ
  evidence : Evidence
  deriving DecidableEq

/-- `CommercialShipmentLink`. -/
structure Link where
  shipmentDealId : String
  data : LinkData
  checkedAt : ℤ
  deriving DecidableEq

/-- What was finished last. -/
inductive Operation
  | reconcile
  /-- A reconcile without departments or fields. -/
  | skipped
  | resolve
  deriving DecidableEq

/-- The tables and the locks of `Deal` rows. No statement reads `last`, the operation that was finished last,
and `restored`: a linked shipment has come back since the last allocation. -/
structure LinkDb where
  deals : List Deal := []
  paid : String → List Paid := fun _ => []
  links : List Link := []
  assemblyPipelineIds : List String := []
  fieldsKnown : Bool := false
  locked : String → Bool := fun _ => false
  now : ℤ := 0
  last : Option Operation := none
  restored : Bool := false

variable (db : LinkDb)

/-- A deal that is not deleted. -/
def LinkDb.live (id : String) : Bool := db.deals.any fun deal => deal.card.id = id && !deal.deleted

def LinkDb.link? (shipmentDealId : String) : Option Link :=
  db.links.find? fun link => link.shipmentDealId = shipmentDealId

/-! ## The statements of `reconcile` -/

def manualSource : String := "manual-confirmed"

def identitySources : List String := ["invoice-document-identity", "invoice-document-payment-identity"]

/-- A field of an invoice or a document is filled; `document` is the array of both documents. -/
def Card.identified (card : Card) : Bool :=
  !card.invoice.isUndefined || (card.document.arr?.getD []).any (!·.isUndefined)

/-- The deals outside the assembly that have an identifier. -/
def LinkDb.sources (assemblyPipelineId : String) : List Card :=
  (db.deals.filter fun deal => deal.card.pipelineId ≠ assemblyPipelineId && deal.card.identified).map (·.card)

/-- A link that the automatic confirmation has not settled. -/
def LinkData.open_ (data : LinkData) : Bool :=
  (data.status ≠ .confirmed && data.status ≠ .allocationRequired) || identitySources.contains data.source

/-- `ORDER BY "checkedAt" ASC NULLS FIRST, "createdAt" DESC`. -/
def pendingBefore (db : LinkDb) (a b : Card) : Bool :=
  match (db.link? a.id).map (·.checkedAt), (db.link? b.id).map (·.checkedAt) with
  | none, some _ => true
  | some _, none => false
  | some s, some t => s < t || (s = t && b.createdAt ≤ a.createdAt)
  | none, none => b.createdAt ≤ a.createdAt

/-- The work list: assembly cards without a settled link. -/
def LinkDb.pending (assemblyPipelineId : String) (limit : ℕ) : List Card :=
  (((db.deals.filter fun deal => deal.card.pipelineId = assemblyPipelineId && !deal.deleted &&
    (db.link? deal.card.id).all (·.data.open_)).map (·.card)).insertionSort
      (pendingBefore db · · = true)).take limit

/-- The last payment before the shipment. -/
def lastPaid (paid : List Paid) (createdAt : ℤ) : Option Paid :=
  (paid.filter fun p => p.at_ ≤ createdAt).foldl (fun best p =>
    match best with
    | some b => if b.at_ < p.at_ then some p else some b
    | none => some p) none

/-- The sources that share the invoice number or a document, each with its last payment. -/
def eligible (sources : List Card) (paid : String → List Paid) (shipment : Card) : List (Card × Option ℤ) :=
  (sources.filter fun source =>
    ((identifier shipment.invoice).isSome && decide (identifier source.invoice = identifier shipment.invoice)) ||
      (fileIds source.document).any (fileIds shipment.document).contains).map
    fun source => (source, (lastPaid (paid source.id) shipment.createdAt).map (·.at_))

/-- An `entity_responsible_changed` event. -/
structure OwnerEvent where
  valueBefore : JsValue
  valueAfter : JsValue

/-- What the reads about the owner of a source gave: the last event before the shipment, the first one after
it, the user that the event names, and the entries of the stored history before and after. -/
structure OwnerReads where
  previousEvent : Option OwnerEvent
  nextEvent : Option OwnerEvent
  user : Option String
  prior : Option (Option String)
  future : Option (Option String)

/-- The manager of the source when the shipment was created. -/
def commercialManager (reads : OwnerReads) (sale shipment : Card) : Option String :=
  let native := match reads.previousEvent with
    | some event => some event.valueAfter
    | none => reads.nextEvent.map (·.valueBefore)
  match native with
  | some value => if (responsibleExternalId value).isSome then reads.user else none
  | none => match reads.prior, reads.future with
    | some toUserId, _ => toUserId
    | none, some fromUserId => fromUserId
    | none, none =>
      if sale.updatedAt ≤ shipment.createdAt ∧ sale.responsibleId = shipment.responsibleId then
        sale.responsibleId
      else none

/-- The link of a shipment to the source that was selected. -/
def linkData (hash : JsString → String) (sources : List Card) (paid : String → List Paid)
    (reads : OwnerReads) (shipment : Card) : LinkData :=
  let selected := chooseShipmentSource hash shipment (eligible sources paid shipment)
  let sale := selected.saleDealId.bind fun id => sources.find? fun source => source.id = id
  let payment := sale.bind fun sale => lastPaid (paid sale.id) shipment.createdAt
  let managerId := sale.bind fun sale => commercialManager reads sale shipment
  let departmentKey := payment.map (·.departmentKey)
  { saleDealId := selected.saleDealId, managerId, departmentKey
    status := if selected.saleDealId.isSome && managerId.isSome && departmentKey.isSome then .confirmed
      else if selected.status = .ambiguous then .ambiguous else .unresolved
    source := "invoice-payment-v2", effectiveAt := shipment.createdAt
    evidence := { selected.evidence with
      paidEventId := payment.map (·.id), paidAt := payment.map (·.at_) } }

/-- The link differs from the one that was read. -/
def LinkData.changed (data : LinkData) (previous : Option Link) : Bool :=
  previous.all fun link => link.data.saleDealId ≠ data.saleDealId || link.data.managerId ≠ data.managerId ||
    link.data.departmentKey ≠ data.departmentKey || link.data.status ≠ data.status ||
    link.data.source ≠ data.source || link.data.evidence ≠ data.evidence

/-- `upsert` with an empty update: create the link if there is none. -/
def LinkDb.create (shipmentDealId : String) (data : LinkData) : LinkDb :=
  if db.links.any (·.shipmentDealId = shipmentDealId) then db
  else { db with links := db.links ++ [⟨shipmentDealId, data, db.now⟩] }

/-- The links that the guarded update of a shipment writes. -/
def Link.writable (shipmentDealId : String) (link : Link) : Bool :=
  link.shipmentDealId = shipmentDealId && link.data.source ≠ manualSource && link.data.open_

def LinkDb.updateOpen (shipmentDealId : String) (data : LinkData) : LinkDb :=
  { db with links := Table.updateWhere (·.writable shipmentDealId) ({ · with data }) db.links }

def LinkDb.check (ids : List String) : LinkDb :=
  { db with
    links := Table.updateWhere (ids.contains ·.shipmentDealId) ({ · with checkedAt := db.now }) db.links }

/-- A link of a sale to a shipment that is not deleted. -/
def LinkDb.linked (saleDealId : String) (link : Link) : Bool :=
  link.data.saleDealId = some saleDealId && db.live link.shipmentDealId

/-- An automatic confirmation of a sale that has more than one shipment. -/
def LinkDb.doubled (link : Link) : Bool :=
  link.data.status = .confirmed && link.data.source ≠ manualSource &&
    link.data.saleDealId.any fun sale => 1 < db.links.countP (db.linked sale)

def Link.requireAllocation (link : Link) : Link :=
  { link with data := { link.data with
    status := .allocationRequired
    evidence := { link.data.evidence with reason := some "multiple-shipments-require-confirmed-allocation" } } }

/-- The last statement of `reconcile`. -/
def LinkDb.allocate : LinkDb :=
  { db with
    links := Table.updateWhere db.doubled Link.requireAllocation db.links
    last := some .reconcile, restored := false }

/-! ## The statements of `resolve` -/

/-- A request of an administrator, with the source that its link or number names. -/
structure Confirmation where
  userId : String
  shipmentDealId : String
  saleDealId : String
  managerId : String
  allocationConfirmed : Bool

/-- The shipment is an assembly card, the sale is another deal that was paid before it; the payment. -/
def LinkDb.confirmedPayment (request : Confirmation) : Option (Card × Paid) :=
  (db.deals.find? fun deal => deal.card.id = request.shipmentDealId).bind fun shipment =>
    (db.deals.find? fun deal => deal.card.id = request.saleDealId).bind fun sale =>
      if db.assemblyPipelineIds.contains shipment.card.pipelineId ∧ sale.card.id ≠ shipment.card.id then
        (lastPaid (db.paid sale.card.id) shipment.card.createdAt).map fun paid => (shipment.card, paid)
      else none

/-- The links of the sale to other shipments. -/
def LinkDb.others (request : Confirmation) : ℕ :=
  db.links.countP fun link =>
    link.data.saleDealId = some request.saleDealId && link.shipmentDealId ≠ request.shipmentDealId

def manualData (request : Confirmation) (shipment : Card) (paid : Paid) (now : ℤ) : LinkData :=
  { saleDealId := some request.saleDealId, managerId := some request.managerId
    departmentKey := some paid.departmentKey, status := .confirmed, source := manualSource
    effectiveAt := shipment.createdAt
    evidence := { confirmedBy := some request.userId, confirmedAt := some now, paidEventId := some paid.id
                  allocationConfirmed := some request.allocationConfirmed } }

/-- The upsert of `resolve`. -/
def LinkDb.confirm (shipmentDealId : String) (data : LinkData) : LinkDb :=
  if db.links.any (·.shipmentDealId = shipmentDealId) then
    { db with links := Table.updateWhere (·.shipmentDealId = shipmentDealId) ({ · with data }) db.links }
  else { db with links := db.links ++ [⟨shipmentDealId, data, db.now⟩] }

/-! ## Programs -/

/-- What a reconcile has read before its first link. -/
structure Work where
  sources : List Card
  paid : String → List Paid
  pending : List Card
  previous : List Link

inductive LinkThread
  | idle
  /-- `reconcile`, before each of its reads. -/
  | starting (limit : ℕ)
  | readingSources (assemblyPipelineId : String) (limit : ℕ)
  | readingPaid (assemblyPipelineId : String) (limit : ℕ) (sources : List Card)
  | readingPending (assemblyPipelineId : String) (limit : ℕ) (sources : List Card) (paid : String → List Paid)
  | readingLinks (sources : List Card) (paid : String → List Paid) (pending : List Card)
  /-- The next shipment of the work list. -/
  | linking (work : Work) (shipment : Card) (rest : List Card)
  | creating (work : Work) (shipment : Card) (data : LinkData) (rest : List Card)
  | updating (work : Work) (shipment : Card) (data : LinkData) (rest : List Card)
  | checking (work : Work)
  | allocating
  /-- `resolve`, before its reads, its count and the statements of its transaction. -/
  | reading (request : Confirmation)
  | counting (request : Confirmation) (shipment : Card) (paid : Paid)
  | locking (request : Confirmation) (shipment : Card) (paid : Paid)
  | deciding (request : Confirmation) (shipment : Card) (paid : Paid)
  | confirming (request : Confirmation) (shipment : Card) (paid : Paid)

/-- After a shipment: the next one, or the statements after the loop. -/
def Work.next (work : Work) : List Card → LinkThread
  | shipment :: rest => .linking work shipment rest
  | [] => if work.pending.isEmpty then .allocating else .checking work

inductive LinkAction
  /-- The synchronization changes the deals, the payments or the settings. -/
  | deals (deals : List Deal)
  | payments (paid : String → List Paid)
  | settings (assemblyPipelineIds : List String) (fieldsKnown : Bool)
  | tick (now : ℤ)
  | reconcile (limit : ℕ)
  | resolve (request : Confirmation)
  /-- The next statement; `owner` after the reads about the owner of the source. -/
  | next
  | owner (reads : OwnerReads)

def LinkDb.finish (operation : Operation) : LinkDb := { db with last := some operation }

/-- The deals change; a shipment with a link may come back. -/
def LinkDb.setDeals (deals : List Deal) : LinkDb :=
  { db with
    deals := deals
    restored := db.restored || db.links.any fun link =>
      !db.live link.shipmentDealId && ({ db with deals := deals } : LinkDb).live link.shipmentDealId }

def LinkDb.setLock (id : String) (locked : Bool) : LinkDb :=
  { db with locked := fun i => if i = id then locked else db.locked i }

/-- The next statement of a program. -/
def linkAct (hash : JsString → String) (db : LinkDb) : LinkThread → LinkAction → Option (LinkDb × LinkThread)
  | .idle, .deals deals => some (db.setDeals deals, .idle)
  | .idle, .payments paid => some ({ db with paid }, .idle)
  | .idle, .settings assemblyPipelineIds fieldsKnown => some ({ db with assemblyPipelineIds, fieldsKnown }, .idle)
  | .idle, .tick now => some ({ db with now }, .idle)
  | .idle, .reconcile limit => some (db, .starting limit)
  | .idle, .resolve request => some (db, .reading request)
  | .starting limit, .next =>
    match db.assemblyPipelineIds.head? with
    | some assemblyPipelineId =>
      if db.fieldsKnown then some (db, .readingSources assemblyPipelineId limit)
      else some (db.finish .skipped, .idle)
    | none => some (db.finish .skipped, .idle)
  | .readingSources assemblyPipelineId limit, .next =>
    some (db, .readingPaid assemblyPipelineId limit (db.sources assemblyPipelineId))
  | .readingPaid assemblyPipelineId limit sources, .next =>
    some (db, .readingPending assemblyPipelineId limit sources db.paid)
  | .readingPending assemblyPipelineId limit sources paid, .next =>
    some (db, .readingLinks sources paid (db.pending assemblyPipelineId limit))
  | .readingLinks sources paid pending, .next =>
    some (db, Work.next ⟨sources, paid, pending, db.links⟩ pending)
  | .linking work shipment rest, .owner reads =>
    let data := linkData hash work.sources work.paid reads shipment
    if data.changed (work.previous.find? fun link => link.shipmentDealId = shipment.id) then
      some (db, .creating work shipment data rest)
    else some (db, work.next rest)
  | .creating work shipment data rest, .next =>
    some (db.create shipment.id data, .updating work shipment data rest)
  | .updating work shipment data rest, .next => some (db.updateOpen shipment.id data, work.next rest)
  | .checking work, .next => some (db.check (work.pending.map (·.id)), .allocating)
  | .allocating, .next => some (db.allocate, .idle)
  | .reading request, .next =>
    match db.confirmedPayment request with
    | some (shipment, paid) => some (db, .counting request shipment paid)
    | none => some (db.finish .resolve, .idle)
  | .counting request shipment paid, .next =>
    if db.others request ≠ 0 ∧ request.allocationConfirmed = false then some (db.finish .resolve, .idle)
    else some (db, .locking request shipment paid)
  | .locking request shipment paid, .next =>
    if db.locked request.shipmentDealId then none
    else some (db.setLock request.shipmentDealId true, .deciding request shipment paid)
  | .deciding request shipment paid, .next =>
    if (db.link? request.shipmentDealId).any (·.data.status = .confirmed) then
      some ((db.setLock request.shipmentDealId false).finish .resolve, .idle)
    else some (db, .confirming request shipment paid)
  | .confirming request shipment paid, .next =>
    some (((db.confirm request.shipmentDealId (manualData request shipment paid db.now)).setLock
      request.shipmentDealId false).finish .resolve, .idle)
  | _, _ => none

/-- No links; every worker idle. -/
def linkStart : World LinkDb LinkThread := World.start {} .idle

end AmoAnalytics.Workspaces
