import AmoAnalytics.Lib.Select

/-!
# The fact marts

The refresh statements of `fact-marts.service.ts`. Each mart is refreshed by deleting the rows of the given deals
and inserting what a select over the source tables gives for them; without deals the whole mart is replaced. All
statements of a refresh run in one transaction, so a violated constraint leaves every mart as it was.
-/

namespace AmoAnalytics.Facts

open Select

/-! ## The source tables -/

structure Deal where
  id : String
  externalId : String
  pipelineId : String
  stageId : String
  responsibleId : Option String := none
  contactId : Option String := none
  lossReasonId : Option String := none
  title : String
  amount : ℚ := 0
  currency : String
  source : Option String := none
  tags : List String := []
  customFields : String := ""
  closedAt : Option ℤ := none
  expectedCloseAt : Option ℤ := none
  createdAt : ℤ
  updatedAt : ℤ
  deletedAt : Option ℤ := none

structure Pipeline where
  id : String
  name : String

structure PipelineStage where
  id : String
  pipelineId : String
  name : String
  position : ℤ
  color : Option String
  isWon : Bool
  isLost : Bool

structure CrmUser where
  id : String
  externalId : String
  name : String
  groupId : Option String

structure CrmGroup where
  id : String
  name : String

structure Contact where
  id : String
  externalId : String
  name : String
  email : Option String

structure LossReason where
  id : String
  name : String

structure DealStageHistory where
  id : String
  dealId : String
  fromStageId : Option String
  toStageId : String
  movedAt : ℤ
  movedById : Option String
  source : String

structure EmailThreadState where
  id : String
  dealId : String
  threadId : String
  lastIncomingNoteExternalId : Option String
  lastIncomingAt : Option ℤ
  lastOutgoingAt : Option ℤ
  lastMessageAt : ℤ
  subject : Option String
  summary : Option String
  body : Option String
  sender : Option String
  recipient : Option String
  attachCount : ℤ
  deliveryStatus : Option String
  messages : String
  isPending : Bool
  updatedAt : ℤ

structure Sources where
  deals : List Deal := []
  pipelines : List Pipeline := []
  stages : List PipelineStage := []
  users : List CrmUser := []
  groups : List CrmGroup := []
  contacts : List Contact := []
  lossReasons : List LossReason := []
  history : List DealStageHistory := []
  emailThreads : List EmailThreadState := []

/-! ## The rows of the marts -/

structure PipelineColumns where
  pipelineId : String
  pipelineName : String

structure StageColumns where
  stageId : String
  stageName : String
  stageIsWon : Bool
  stageIsLost : Bool

structure OwnerColumns where
  responsibleId : Option String
  responsibleName : Option String
  groupId : Option String
  groupName : Option String

structure ContactColumns where
  contactId : Option String
  contactExternalId : Option String
  contactName : Option String
  contactEmail : Option String

structure FactDealCurrent extends PipelineColumns, StageColumns, OwnerColumns, ContactColumns where
  dealId : String
  dealExternalId : String
  stagePosition : ℤ
  stageColor : Option String
  responsibleExternalId : Option String
  lossReasonId : Option String
  lossReasonName : Option String
  title : String
  amount : ℚ
  currency : String
  source : Option String
  tags : List String
  customFields : String
  closedAt : Option ℤ
  expectedCloseAt : Option ℤ
  createdAt : ℤ
  updatedAt : ℤ
  deletedAt : Option ℤ
  factUpdatedAt : ℤ

structure FactStageTransition extends PipelineColumns, OwnerColumns where
  id : String
  dealId : String
  dealExternalId : String
  dealTitle : String
  dealAmount : ℚ
  dealCurrency : String
  fromStageId : Option String
  fromStageName : Option String
  toStageId : String
  toStageName : String
  toStagePosition : ℤ
  toStageIsWon : Bool
  toStageIsLost : Bool
  movedAt : ℤ
  movedById : Option String
  source : String
  factUpdatedAt : ℤ

structure FactDealStageInterval extends PipelineColumns, StageColumns, OwnerColumns where
  id : String
  dealId : String
  dealExternalId : String
  stagePosition : ℤ
  responsibleExternalId : Option String
  enteredAt : ℤ
  exitedAt : Option ℤ
  durationSeconds : Option ℤ
  isCurrent : Bool
  factUpdatedAt : ℤ

structure FactEmailThreadState extends PipelineColumns, StageColumns, OwnerColumns, ContactColumns where
  id : String
  dealId : String
  dealExternalId : String
  dealTitle : String
  dealAmount : ℚ
  dealCurrency : String
  responsibleExternalId : Option String
  threadId : String
  lastIncomingNoteExternalId : Option String
  lastIncomingAt : Option ℤ
  lastOutgoingAt : Option ℤ
  lastMessageAt : ℤ
  subject : Option String
  summary : Option String
  body : Option String
  sender : Option String
  recipient : Option String
  attachCount : ℤ
  deliveryStatus : Option String
  messages : String
  isPending : Bool
  sourceUpdatedAt : ℤ
  factUpdatedAt : ℤ

/-! ## The selects -/

def pipelineColumns (pipeline : Pipeline) : PipelineColumns := ⟨pipeline.id, pipeline.name⟩

def stageColumns (stage : PipelineStage) : StageColumns := ⟨stage.id, stage.name, stage.isWon, stage.isLost⟩

def ownerColumns (manager : Option CrmUser) (group : Option CrmGroup) : OwnerColumns :=
  ⟨manager.map (·.id), manager.map (·.name), group.map (·.id), group.map (·.name)⟩

def contactColumns (contact : Option Contact) : ContactColumns :=
  ⟨contact.map (·.id), contact.map (·.externalId), contact.map (·.name), contact.bind (·.email)⟩

namespace Sources

variable (src : Sources) (now : ℤ) (md5 : String → String) (selected : String → Bool)

/-- `JOIN … ON pipeline.id = …`. -/
def pipeline (id : String) : List Pipeline := src.pipelines.filter (·.id = id)

def stage (id : String) : List PipelineStage := src.stages.filter (·.id = id)

def deal (id : String) : List Deal := src.deals.filter (·.id = id)

/-- The manager of a deal with the group, by two left joins. -/
def owners (deal : Deal) : List (Option CrmUser × Option CrmGroup) :=
  (leftJoin CrmUser.id deal.responsibleId src.users).flatMap fun manager =>
    (leftJoin CrmGroup.id (manager.bind (·.groupId)) src.groups).map fun group => (manager, group)

/-- The row of `fact_deal_current` for a deal. -/
def dealCurrentOf (deal : Deal) : List FactDealCurrent :=
  (src.pipeline deal.pipelineId).flatMap fun pipeline =>
  (src.stage deal.stageId).flatMap fun stage =>
  (src.owners deal).flatMap fun owner =>
  (leftJoin Contact.id deal.contactId src.contacts).flatMap fun contact =>
  (leftJoin LossReason.id deal.lossReasonId src.lossReasons).map fun lossReason =>
  { pipelineColumns pipeline, stageColumns stage, ownerColumns owner.1 owner.2, contactColumns contact with
    dealId := deal.id
    dealExternalId := deal.externalId
    stagePosition := stage.position
    stageColor := stage.color
    responsibleExternalId := owner.1.map (·.externalId)
    lossReasonId := lossReason.map (·.id)
    lossReasonName := lossReason.map (·.name)
    title := deal.title
    amount := deal.amount
    currency := deal.currency
    source := deal.source
    tags := deal.tags
    customFields := deal.customFields
    closedAt := deal.closedAt
    expectedCloseAt := deal.expectedCloseAt
    createdAt := deal.createdAt
    updatedAt := deal.updatedAt
    deletedAt := deal.deletedAt
    factUpdatedAt := now }

def selectDealCurrent : List FactDealCurrent :=
  (src.deals.filter fun deal => selected deal.id).flatMap (src.dealCurrentOf now)

/-- The rows of `fact_stage_transition` for a row of the history. -/
def stageTransitionOf (history : DealStageHistory) : List FactStageTransition :=
  (src.deal history.dealId).flatMap fun deal =>
  (src.stage history.toStageId).flatMap fun toStage =>
  (src.pipeline toStage.pipelineId).flatMap fun pipeline =>
  (leftJoin PipelineStage.id history.fromStageId src.stages).flatMap fun fromStage =>
  (src.owners deal).map fun owner =>
  { pipelineColumns pipeline, ownerColumns owner.1 owner.2 with
    id := history.id
    dealId := deal.id
    dealExternalId := deal.externalId
    dealTitle := deal.title
    dealAmount := deal.amount
    dealCurrency := deal.currency
    fromStageId := fromStage.map (·.id)
    fromStageName := fromStage.map (·.name)
    toStageId := toStage.id
    toStageName := toStage.name
    toStagePosition := toStage.position
    toStageIsWon := toStage.isWon
    toStageIsLost := toStage.isLost
    movedAt := history.movedAt
    movedById := history.movedById
    source := history.source
    factUpdatedAt := now }

def selectStageTransitions : List FactStageTransition :=
  (src.history.filter fun history => selected history.dealId).flatMap (src.stageTransitionOf now)

/-- A row of `ordered_history`. -/
structure Ordered where
  row : DealStageHistory
  nextMovedAt : Option ℤ
  rn : ℕ

/-- `ORDER BY "movedAt", "id"`. -/
def historyLe (a b : DealStageHistory) : Bool :=
  a.movedAt < b.movedAt || (a.movedAt = b.movedAt && decide (a.id ≤ b.id))

/-- `LEAD("movedAt")` and `ROW_NUMBER()` over one ordered partition. -/
def numbered : ℕ → List DealStageHistory → List Ordered
  | _, [] => []
  | n, row :: rows => { row, nextMovedAt := rows.head?.map (·.movedAt), rn := n } :: numbered (n + 1) rows

def selectedDeals : List Deal := src.deals.filter fun deal => selected deal.id

def orderedHistory : List Ordered :=
  overPartition DealStageHistory.dealId (fun rows => numbered 1 (rows.mergeSort historyLe))
    (src.history.flatMap fun history =>
      ((src.selectedDeals selected).filter (·.id = history.dealId)).map fun _ => history)

/-- A row of `intervals`. -/
structure Interval where
  id : String
  dealId : String
  stageId : Option String
  enteredAt : ℤ
  exitedAt : Option ℤ
  isCurrent : Bool

/-- The stage before the first move, since the deal was created. -/
def initialIntervals : List Interval :=
  (src.selectedDeals selected).flatMap fun deal =>
    ((src.orderedHistory selected).filter fun first =>
        first.rn = 1 && first.row.dealId = deal.id).filterMap fun first =>
      if first.row.fromStageId.isSome && deal.createdAt < first.row.movedAt then
        some { id := md5 (deal.id ++ ":initial"), dealId := deal.id, stageId := first.row.fromStageId,
               enteredAt := deal.createdAt, exitedAt := some first.row.movedAt, isCurrent := false }
      else none

def movedIntervals : List Interval :=
  (src.orderedHistory selected).map fun ordered =>
    { id := ordered.row.id, dealId := ordered.row.dealId, stageId := some ordered.row.toStageId,
      enteredAt := ordered.row.movedAt, exitedAt := ordered.nextMovedAt, isCurrent := ordered.nextMovedAt.isNone }

/-- The present stage of a deal without a history. -/
def currentIntervals : List Interval :=
  ((src.selectedDeals selected).filter fun deal =>
    !(src.orderedHistory selected).any fun ordered => ordered.row.dealId = deal.id).map fun deal =>
      { id := md5 (deal.id ++ ":current"), dealId := deal.id, stageId := some deal.stageId,
        enteredAt := deal.createdAt, exitedAt := none, isCurrent := true }

def intervals : List Interval :=
  src.initialIntervals md5 selected ++ src.movedIntervals selected ++ src.currentIntervals md5 selected

/-- `GREATEST(0, FLOOR(EXTRACT(EPOCH FROM exited_at - entered_at)))`, of times in milliseconds. -/
def durationSeconds (interval : Interval) : Option ℤ :=
  interval.exitedAt.map fun exitedAt => max 0 ((exitedAt - interval.enteredAt) / 1_000)

/-- The rows of `fact_deal_stage_interval` for an interval. -/
def stageIntervalOf (interval : Interval) : List FactDealStageInterval :=
  ((src.selectedDeals selected).filter (·.id = interval.dealId)).flatMap fun deal =>
  (src.stages.filter fun stage => some stage.id = interval.stageId).flatMap fun stage =>
  (src.pipeline stage.pipelineId).flatMap fun pipeline =>
  (src.owners deal).map fun owner =>
  { pipelineColumns pipeline, stageColumns stage, ownerColumns owner.1 owner.2 with
    id := interval.id
    dealId := deal.id
    dealExternalId := deal.externalId
    stagePosition := stage.position
    responsibleExternalId := owner.1.map (·.externalId)
    enteredAt := interval.enteredAt
    exitedAt := interval.exitedAt
    durationSeconds := durationSeconds interval
    isCurrent := interval.isCurrent
    factUpdatedAt := now }

def selectStageIntervals : List FactDealStageInterval :=
  (src.intervals md5 selected).flatMap (src.stageIntervalOf now selected)

/-- The rows of `fact_email_thread_state` for a thread. -/
def emailThreadOf (state : EmailThreadState) : List FactEmailThreadState :=
  (src.deal state.dealId).flatMap fun deal =>
  (src.pipeline deal.pipelineId).flatMap fun pipeline =>
  (src.stage deal.stageId).flatMap fun stage =>
  (src.owners deal).flatMap fun owner =>
  (leftJoin Contact.id deal.contactId src.contacts).map fun contact =>
  { pipelineColumns pipeline, stageColumns stage, ownerColumns owner.1 owner.2, contactColumns contact with
    id := state.id
    dealId := deal.id
    dealExternalId := deal.externalId
    dealTitle := deal.title
    dealAmount := deal.amount
    dealCurrency := deal.currency
    responsibleExternalId := owner.1.map (·.externalId)
    threadId := state.threadId
    lastIncomingNoteExternalId := state.lastIncomingNoteExternalId
    lastIncomingAt := state.lastIncomingAt
    lastOutgoingAt := state.lastOutgoingAt
    lastMessageAt := state.lastMessageAt
    subject := state.subject
    summary := state.summary
    body := state.body
    sender := state.sender
    recipient := state.recipient
    attachCount := state.attachCount
    deliveryStatus := state.deliveryStatus
    messages := state.messages
    isPending := state.isPending
    sourceUpdatedAt := state.updatedAt
    factUpdatedAt := now }

def selectEmailThreads : List FactEmailThreadState :=
  (src.emailThreads.filter fun state => selected state.dealId).flatMap (src.emailThreadOf now)

end Sources

/-! ## The marts and their constraints -/

/-- The rows of a mart meet its constraints. -/
abbrev Mart {ρ : Type} (ok : List ρ → Prop) := { rows : List ρ // ok rows }

def DealCurrentOk (rows : List FactDealCurrent) : Prop :=
  (rows.map (·.dealId)).Nodup ∧ (rows.map (·.dealExternalId)).Nodup

def StageTransitionOk (rows : List FactStageTransition) : Prop := (rows.map (·.id)).Nodup

/-- The key, and the range of an integer. -/
def StageIntervalOk (rows : List FactDealStageInterval) : Prop :=
  (rows.map (·.id)).Nodup ∧ ∀ row ∈ rows, ∀ seconds ∈ row.durationSeconds, seconds < 2 ^ 31

def EmailThreadOk (rows : List FactEmailThreadState) : Prop :=
  (rows.map (·.id)).Nodup ∧ (rows.map fun row => (row.dealId, row.threadId)).Nodup

instance : DecidablePred DealCurrentOk := fun _ => inferInstanceAs (Decidable (_ ∧ _))
instance : DecidablePred StageTransitionOk := fun _ => inferInstanceAs (Decidable (List.Nodup _))
instance : DecidablePred StageIntervalOk := fun _ => inferInstanceAs (Decidable (_ ∧ _))
instance : DecidablePred EmailThreadOk := fun _ => inferInstanceAs (Decidable (_ ∧ _))

structure Marts where
  dealCurrent : Mart DealCurrentOk
  stageTransitions : Mart StageTransitionOk
  stageIntervals : Mart StageIntervalOk
  emailThreads : Mart EmailThreadOk

/-! ## The refresh -/

def maxIncrementalFactDeals : ℕ := 10_000

/-- `[...new Set(ids.filter(Boolean))]`. -/
def normalizedIds (ids : List String) : List String := JsMap.distinct (ids.filter (· ≠ ""))

/-- The deals of a statement: all of them without ids. -/
def selects (ids : List String) : String → Bool := if ids = [] then fun _ => true else fun id => ids.contains id

/-- Delete the rows of the deals and insert what is selected for them; `none` when a constraint is violated. -/
def refreshMart {ρ : Type} {ok : List ρ → Prop} [DecidablePred ok] (dealId : ρ → String)
    (select : (String → Bool) → List ρ) (ids : List String) (mart : Mart ok) : Option (Mart ok) :=
  let rows := (mart.1.filter fun row => !selects ids (dealId row)) ++ select (selects ids)
  if h : ok rows then some ⟨rows, h⟩ else none

section Refresh

variable (src : Sources) (now : ℤ) (md5 : String → String)

def refreshFactDealCurrent (ids : List String) (mart : Mart DealCurrentOk) : Option (Mart DealCurrentOk) :=
  refreshMart (·.dealId) (src.selectDealCurrent now) (normalizedIds ids) mart

def refreshFactStageTransitions (ids : List String) (mart : Mart StageTransitionOk) :
    Option (Mart StageTransitionOk) :=
  refreshMart (·.dealId) (src.selectStageTransitions now) (normalizedIds ids) mart

def refreshFactStageIntervals (ids : List String) (mart : Mart StageIntervalOk) : Option (Mart StageIntervalOk) :=
  refreshMart (·.dealId) (src.selectStageIntervals now md5) (normalizedIds ids) mart

def refreshEmailThreadFacts (ids : List String) (mart : Mart EmailThreadOk) : Option (Mart EmailThreadOk) :=
  refreshMart (·.dealId) (src.selectEmailThreads now) (normalizedIds ids) mart

/-- The statements of one transaction. -/
def refreshFacts (ids : List String) (marts : Marts) : Option Marts :=
  (refreshFactDealCurrent src now ids marts.dealCurrent).bind fun dealCurrent =>
  (refreshFactStageTransitions src now ids marts.stageTransitions).bind fun stageTransitions =>
  (refreshFactStageIntervals src now md5 ids marts.stageIntervals).bind fun stageIntervals =>
  (refreshEmailThreadFacts src now ids marts.emailThreads).map fun emailThreads =>
  { dealCurrent, stageTransitions, stageIntervals, emailThreads }

def refreshAll (marts : Marts) : Option Marts := refreshFacts src now md5 [] marts

def refreshDeals (dealIds : List String) (marts : Marts) : Option Marts :=
  let ids := normalizedIds dealIds
  if ids.length = 0 then some marts
  else if ids.length > maxIncrementalFactDeals then refreshAll src now md5 marts
  else refreshFacts src now md5 ids marts

end Refresh

end AmoAnalytics.Facts
