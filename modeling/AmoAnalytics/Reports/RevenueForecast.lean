import AmoAnalytics.Lib.CivilDate
import AmoAnalytics.Lib.Collected
import AmoAnalytics.Reports.ForecastRefs

/-!
# The revenue forecast

`computeRevenueProfitForecast` of `reports.service.ts` puts the deals that were shipped this month, the open deals of
the assembly, and the deals with an invoice or a quote of the sales and the repeat pipelines into buckets.
-/

namespace AmoAnalytics.Reports.RevenueForecast

open CivilDate JsText

/-! ## Tables -/

/-- `fact_deal_current`, with the columns the forecast reads. -/
structure FactDeal where
  dealId : String
  title : JsString
  pipelineId : String
  stageId : String
  stageName : JsString
  stageIsWon : Bool
  stageIsLost : Bool
  amount : ℚ
  updatedAt : ℤ
  deletedAt : Option ℤ
deriving DecidableEq

structure StageTransition where
  dealId : String
  pipelineId : String
  toStageId : String
  movedAt : ℤ

/-- The responsible of a deal after `commercialLinks.attribute`. -/
structure Responsible where
  id : Option String
  groupId : Option String

/-- What `RevenueForecastEngine` says of a deal. -/
structure Prediction where
  probability : ℚ
  probabilityPercent : ℚ
  deliveryAt : Option ℤ
  predictedShipAt : Option ℤ

structure Database where
  pipelines : List Pipeline
  groups : List CrmGroup
  facts : List FactDeal
  transitions : List StageTransition
  /-- The sale deals of the confirmed shipment links. -/
  transferred : List String
  responsible : FactDeal → Responsible
  factKeys : (facts.map FactDeal.dealId).Nodup

/-- `matches_` stands for the other conditions on a deal when the deals of a pipeline are asked. -/
structure ReportFilters where
  excludeStageIds : List String
  /-- The department of the workspace. -/
  workspace : Option String
  matches_ : String → FactDeal → Bool

/-! ## Buckets -/

inductive BucketKey
  | unassignedShippedThisMonth
  | unassignedShippingThisMonth
  | unassignedNotThisMonth
  | salesShippedThisMonth
  | salesShippingThisMonth
  | salesInvoiceThisMonth
  | salesQuoteThisMonth
  | salesNotThisMonth
  | repeatShippedThisMonth
  | repeatShippingThisMonth
  | repeatInvoiceThisMonth
  | repeatQuoteThisMonth
  | repeatNotThisMonth
deriving DecidableEq

/-- The first word of the key. -/
inductive Side
  | unassigned
  | sales
  | repeats
deriving DecidableEq

namespace BucketKey

/-- In the order of `createRevenueForecastBuckets`. -/
def all : List BucketKey :=
  [unassignedShippedThisMonth, unassignedShippingThisMonth, unassignedNotThisMonth, salesShippedThisMonth,
    salesShippingThisMonth, salesInvoiceThisMonth, salesQuoteThisMonth, salesNotThisMonth, repeatShippedThisMonth,
    repeatShippingThisMonth, repeatInvoiceThisMonth, repeatQuoteThisMonth, repeatNotThisMonth]

def side : BucketKey → Side
  | unassignedShippedThisMonth | unassignedShippingThisMonth | unassignedNotThisMonth => .unassigned
  | salesShippedThisMonth | salesShippingThisMonth | salesInvoiceThisMonth | salesQuoteThisMonth
  | salesNotThisMonth => .sales
  | repeatShippedThisMonth | repeatShippingThisMonth | repeatInvoiceThisMonth | repeatQuoteThisMonth
  | repeatNotThisMonth => .repeats

end BucketKey

structure BucketDeal where
  dealId : String
  title : JsString
  managerId : Option String
  groupId : Option String
  stage : JsString
  source : JsString
  probabilityPercent : ℚ
  amount : ℚ
  revenue : ℚ
  profit : ℚ
  predictedShipAt : Option ℤ

structure Bucket where
  count : ℕ := 0
  revenue : ℚ := 0
  profit : Option ℚ := none
  deals : List BucketDeal := []

abbrev Buckets := BucketKey → Bucket

def createRevenueForecastBuckets : Buckets := fun _ => {}

/-- The arguments of `addDeal`. -/
structure Placement where
  bucketKey : BucketKey
  deal : FactDeal
  source : JsString
  prediction : Option Prediction
  shippedAt : Option ℤ

/-- `Number(v.toFixed(2))`. -/
def toFixed2 (v : ℚ) : ℚ := if v < 0 then -(⌊-v * 100 + 1 / 2⌋ / 100) else ⌊v * 100 + 1 / 2⌋ / 100

def profitRate : ℚ := 32 / 100

section Functions

variable (lower : JsString → JsString) (db : Database)

/-- The probability a placement is weighed with. -/
def Placement.probability (p : Placement) : ℚ := (p.prediction.map Prediction.probability).getD 1

def Placement.revenue (p : Placement) : ℚ := p.deal.amount * p.probability

def Placement.entry (p : Placement) : BucketDeal where
  dealId := p.deal.dealId
  title := p.deal.title
  managerId := (db.responsible p.deal).id
  groupId := (db.responsible p.deal).groupId
  stage := p.deal.stageName
  source := p.source
  probabilityPercent := (p.prediction.map Prediction.probabilityPercent).getD 100
  amount := p.deal.amount
  revenue := toFixed2 p.revenue
  profit := toFixed2 (p.revenue * profitRate)
  predictedShipAt := (p.prediction.bind Prediction.predictedShipAt) <|> p.shippedAt

def addDeal (buckets : Buckets) (p : Placement) : Buckets :=
  let bucket := buckets p.bucketKey
  Function.update buckets p.bucketKey
    { count := bucket.count + 1, revenue := bucket.revenue + p.revenue
      profit := some (bucket.profit.getD 0 + p.revenue * profitRate)
      deals := bucket.deals ++ [p.entry db] }

/-! ## Which deals -/

def startOfMoscowMonth (now : ℤ) : ℤ :=
  utc (utcYear (now + 3 * hour)) (utcMonth (now + 3 * hour)) 0 (21 * hour)

def endOfMoscowDay (now : ℤ) : ℤ :=
  utc (utcYear (now + 3 * hour)) (utcMonth (now + 3 * hour)) (utcDate (now + 3 * hour)) (day - 1) - 3 * hour

/-- `findCurrentStageDealsFromFacts` for the deals of a pipeline, in the given stages if there are some. -/
def findCurrentStageDeals (filters : ReportFilters) (pipelineId : String) (stageIds excludeStageIds : List String) :
    List FactDeal :=
  (db.facts.filter fun deal => deal.deletedAt = none ∧ deal.pipelineId = pipelineId ∧
    (stageIds = [] ∨ deal.stageId ∈ stageIds) ∧ deal.stageId ∉ excludeStageIds ∧
      filters.matches_ pipelineId deal).insertionSort fun a b => b.updatedAt ≤ a.updatedAt

/-- `ORDER BY deal_id, moved_at`. -/
def byDealAndTime (a b : StageTransition) : Prop := toLex (a.dealId, a.movedAt) ≤ toLex (b.dealId, b.movedAt)

instance : DecidableRel byDealAndTime := fun _ _ => inferInstanceAs (Decidable (_ ≤ _))

def shippingEntries (now : ℤ) (assemblyPipelineId shippingDoneStageId : String) : List StageTransition :=
  (db.transitions.filter fun entry => entry.toStageId = shippingDoneStageId ∧ entry.pipelineId = assemblyPipelineId ∧
    startOfMoscowMonth now ≤ entry.movedAt ∧ entry.movedAt ≤ endOfMoscowDay now).insertionSort byDealAndTime

/-- The shipped deals by their ids, with the times of their first entries. -/
def getActualShipping (filters : ReportFilters) (now : ℤ) (assemblyPipelineId shippingDoneStageId : String) :
    List (String × FactDeal × ℤ) :=
  let entries := shippingEntries db now assemblyPipelineId shippingDoneStageId
  let dealsById := JsMap.ofEntries ((db.facts.filter fun deal => deal.deletedAt = none ∧
      deal.pipelineId = assemblyPipelineId ∧ deal.stageId ∉ filters.excludeStageIds ∧
      filters.matches_ assemblyPipelineId deal ∧ deal.dealId ∈ entries.map StageTransition.dealId).map fun deal =>
    (deal.dealId, deal))
  JsMap.collect (fun entry : FactDeal × ℤ => entry.1.dealId) (fun first entry => first.getD entry)
    (entries.filterMap fun entry => (JsMap.get? entry.dealId dealsById).map fun deal => (deal, entry.movedAt)) []

/-- What the computation uses of the references when they are ready. -/
structure ReadyRefs where
  salesPipelineId : String
  assemblyPipelineId : String
  invoiceStageId : String
  quoteStageIds : List String
  shippingDoneStageId : String
  repeatPipelines : List RepeatPipeline
  csmGroupId : String

variable (refs : ReadyRefs) (filters : ReportFilters)

/-- The deals with a confirmed shipment are not waited for in the sale any more. -/
def waiting (deals : List FactDeal) : List FactDeal := deals.filter fun deal => deal.dealId ∉ db.transferred

def assemblyDeals (shippedIds : List String) : List FactDeal :=
  (findCurrentStageDeals db filters refs.assemblyPipelineId []
      (filters.excludeStageIds ++ [refs.shippingDoneStageId])).filter fun deal =>
    deal.dealId ∉ shippedIds ∧ ¬ isBusinessWonStage lower deal.stageIsWon deal.stageName ∧
      ¬ isBusinessLostStage lower deal.stageIsLost deal.stageName

def stageDeals (pipelineId : String) (stageIds : List String) : List FactDeal :=
  waiting db (findCurrentStageDeals db filters pipelineId stageIds filters.excludeStageIds)

def repeatInvoiceDeals (pipeline : RepeatPipeline) : List FactDeal :=
  match pipeline.invoiceStage with
  | some stage => stageDeals db filters pipeline.id [stage.id]
  | none => []

def repeatQuoteDeals (pipeline : RepeatPipeline) : List FactDeal :=
  if pipeline.quoteStages = [] then [] else stageDeals db filters pipeline.id (pipeline.quoteStages.map Stage.id)

/-! ## Which bucket -/

/-- The side of a deal of the assembly, by its responsible. -/
def assemblySide (deal : FactDeal) : Side :=
  if (db.responsible deal).id = some "unassigned-commercial" then .unassigned
  else if (db.responsible deal).groupId = some refs.csmGroupId then .repeats
  else .sales

def revenueForecastShippedBucket (deal : FactDeal) : BucketKey :=
  match assemblySide db refs deal with
  | .unassigned => .unassignedShippedThisMonth
  | .repeats => .repeatShippedThisMonth
  | .sales => .salesShippedThisMonth

def revenueForecastShippingBucket (deal : FactDeal) (inMonth : Bool) : BucketKey :=
  match assemblySide db refs deal with
  | .unassigned => if inMonth then .unassignedShippingThisMonth else .unassignedNotThisMonth
  | .repeats => if inMonth then .repeatShippingThisMonth else .repeatNotThisMonth
  | .sales => if inMonth then .salesShippingThisMonth else .salesNotThisMonth

/-- `predict` is what the engine finds for the deals it is given. -/
def openPlacement (predict : String → Prediction) (likely unlikely : FactDeal → BucketKey)
    (source : FactDeal → Prediction → JsString) (deal : FactDeal) : Placement :=
  let prediction := predict deal.dealId
  { bucketKey := if 1 / 2 ≤ prediction.probability then likely deal else unlikely deal
    deal, source := source deal prediction, prediction := some prediction, shippedAt := none }

def placements (predict : String → Prediction) (now : ℤ) : List Placement :=
  let actualShipping := getActualShipping db filters now refs.assemblyPipelineId refs.shippingDoneStageId
  let invoiceDeals := stageDeals db filters refs.salesPipelineId [refs.invoiceStageId]
  let quoteDeals := stageDeals db filters refs.salesPipelineId refs.quoteStageIds
  (actualShipping.map fun entry =>
      { bucketKey := revenueForecastShippedBucket db refs entry.2.1, deal := entry.2.1
        source := js "Фактически отгружено", prediction := none, shippedAt := some entry.2.2 }) ++
    ((assemblyDeals lower db refs filters (actualShipping.map Prod.fst)).map
      (openPlacement predict (fun deal => revenueForecastShippingBucket db refs deal true)
        (fun deal => revenueForecastShippingBucket db refs deal false) fun _ prediction =>
          if prediction.deliveryAt.isSome then js "Сборка: Delivery + история этапа"
          else js "Сборка: история этапа")) ++
    (invoiceDeals.map (openPlacement predict (fun _ => .salesInvoiceThisMonth) (fun _ => .salesNotThisMonth)
      fun _ _ => js "Счёт: оплата × отгрузка")) ++
    (quoteDeals.map (openPlacement predict (fun _ => .salesQuoteThisMonth) (fun _ => .salesNotThisMonth) fun deal _ =>
      deal.stageName ++ js ": оплата × отгрузка")) ++
    refs.repeatPipelines.flatMap fun pipeline =>
      ((repeatInvoiceDeals db filters pipeline).map
        (openPlacement predict (fun _ => .repeatInvoiceThisMonth) (fun _ => .repeatNotThisMonth) fun _ _ =>
          pipeline.name ++ js ": счёт × отгрузка")) ++
      (repeatQuoteDeals db filters pipeline).map
        (openPlacement predict (fun _ => .repeatQuoteThisMonth) (fun _ => .repeatNotThisMonth) fun _ _ =>
          pipeline.name ++ js ": КП × отгрузка")

def buckets (predict : String → Prediction) (now : ℤ) : Buckets :=
  (placements lower db refs filters predict now).foldl (addDeal db) createRevenueForecastBuckets

/-! ## The report -/

/-- A workspace of the sales department shows no row of the repeat sales, another one none of the sales. -/
def hides (workspace : Option String) (side : Side) : Bool :=
  match workspace with
  | none => false
  | some department => if department = "sales" then side = .repeats else side = .sales

structure Row where
  id : BucketKey
  count : ℕ
  revenue : ℚ
  profit : ℚ
  deals : List BucketDeal

/-- In the order of their texts; a missing date is the empty text. -/
def byShipDate (a b : BucketDeal) : Bool :=
  match a.predictedShipAt, b.predictedShipAt with
  | none, _ => true
  | some _, none => false
  | some s, some t => s ≤ t

def rows (buckets : Buckets) : List Row :=
  ((BucketKey.all.filter fun key => key.side ≠ .unassigned ∨ 0 < (buckets key).count).filter fun key =>
    !hides filters.workspace key.side).map fun key =>
      { id := key, count := (buckets key).count, revenue := toFixed2 (buckets key).revenue
        profit := toFixed2 ((buckets key).profit.getD 0)
        deals := (buckets key).deals.insertionSort fun a b => byShipDate a b }

structure Summary where
  count : ℕ
  revenue : ℚ
  profit : ℚ
  actualRevenue : ℚ
  committedRevenue : ℚ
  pipelineAmount : ℚ

structure Report where
  summary : Summary
  rows : List Row

def readyReport (predict : String → Prediction) (now : ℤ) : Report :=
  let actualShipping := getActualShipping db filters now refs.assemblyPipelineId refs.shippingDoneStageId
  let openForecastDeals := (placements lower db refs filters predict now).filterMap fun p =>
    p.prediction.map fun prediction => (p.deal.amount, prediction.probability)
  let rows := rows filters (buckets lower db refs filters predict now)
  let actualRevenue := (actualShipping.map fun entry => entry.2.1.amount).sum
  { summary :=
      { count := (JsMap.distinct (actualShipping.map Prod.fst)).length + openForecastDeals.length
        revenue := toFixed2 (rows.map Row.revenue).sum
        profit := toFixed2 (rows.map Row.profit).sum
        actualRevenue := toFixed2 actualRevenue
        committedRevenue := toFixed2 (actualRevenue +
          ((openForecastDeals.filter fun item => 8 / 10 ≤ item.2).map fun item => item.1 * item.2).sum)
        pipelineAmount := toFixed2 (actualRevenue + (openForecastDeals.map Prod.fst).sum) }
    rows }

inductive Forecast
  | notReady (warnings : List JsString)
  /-- `ServiceUnavailableException`. -/
  | unavailable
  | ready (report : Report)

/-- The references of a forecast that is ready; the group is asked for later. -/
def RevenueForecastRefs.settled (refs : RevenueForecastRefs) : Option ReadyRefs := do
  let sales ← refs.salesPipeline
  let assembly ← refs.assemblyPipeline
  let invoice ← refs.invoiceStage
  let shippingDone ← refs.shippingDoneStage
  let csmGroup ← refs.csmGroup
  some ⟨sales.id, assembly.id, invoice.id, refs.quoteStages.map Stage.id, shippingDone.id, refs.repeatPipelines,
    csmGroup.id⟩

def computeRevenueProfitForecast (predict : String → Prediction) (now : ℤ) : Forecast :=
  let refs := resolveRevenueForecastRefs lower db.pipelines db.groups
  if refs.warnings ≠ [] then .notReady refs.warnings
  else
    match refs.settled with
    | none => .unavailable
    | some refs => .ready (readyReport lower db refs filters predict now)

end Functions

end AmoAnalytics.Reports.RevenueForecast
