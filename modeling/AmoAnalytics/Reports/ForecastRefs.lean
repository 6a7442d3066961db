import AmoAnalytics.Lib.JsMap
import AmoAnalytics.Reports.ForecastFeatures

/-!
# The pipelines and stages of the revenue forecast

`resolveRevenueForecastRefs` of `reports.service.ts` finds them by parts of their names. One pipeline may have the
parts of several names, and one stage those of an invoice and of a quote.
-/

namespace AmoAnalytics.Reports.RevenueForecast

open JsText ForecastFeatures

structure Stage where
  id : String
  name : JsString
  isWon : Bool
  isLost : Bool
  position : ℤ

structure Pipeline where
  id : String
  name : JsString
  /-- In the order of their positions. -/
  stages : List Stage

structure CrmGroup where
  id : String
  name : JsString

structure RepeatPipeline where
  id : String
  name : JsString
  invoiceStage : Option Stage
  quoteStages : List Stage
  wonStages : List Stage
  lossStages : List Stage

structure RevenueForecastRefs where
  warnings : List JsString
  salesPipeline : Option Pipeline
  assemblyPipeline : Option Pipeline
  salesWonStages : List Stage
  salesLossStages : List Stage
  invoiceStage : Option Stage
  quoteStages : List Stage
  repeatPipelines : List RepeatPipeline
  shippingDoneStage : Option Stage
  assemblyStartStage : Option Stage
  itemsInTransitStage : Option Stage
  assemblyLossStages : List Stage
  assemblyStages : List Stage
  csmGroup : Option CrmGroup

section Functions

-- `lower` is `toLowerCase`.
variable (lower : JsString → JsString)

/-- In lower case, with `е` for `ё`. -/
def normalizeStageName (value : JsString) : JsString :=
  trimmed ((lower value).map fun c => if c = 0x451 then 0x435 else c)

/-- The normalized name has the part. -/
def named (name : JsString) (part : String) : Bool := includes (normalizeStageName lower name) (js part)

def isBusinessWonStage (isWon : Bool) (name : JsString) : Bool :=
  isWon || named lower name "оплачен" || named lower name "успеш"

def isBusinessLostStage (isLost : Bool) (name : JsString) : Bool :=
  isLost || named lower name "отказ" || named lower name "не реализовано" || named lower name "нереализовано"

def Stage.isBusinessWon (stage : Stage) : Bool := isBusinessWonStage lower stage.isWon stage.name

def Stage.isBusinessLost (stage : Stage) : Bool := isBusinessLostStage lower stage.isLost stage.name

def businessWonStages (stages : List Stage) : List Stage :=
  JsMap.values (JsMap.ofEntries ((stages.filter (Stage.isBusinessWon lower)).map fun stage => (stage.id, stage)))

def findCrmGroupByName (groups : List CrmGroup) (name : String) : Option CrmGroup :=
  groups.find? fun group => normalizeStageName lower group.name = normalizeStageName lower (js name)

def pipelineByName (pipelines : List Pipeline) (needle : String) : Option Pipeline :=
  pipelines.find? fun pipeline =>
    includes (normalizeStageName lower pipeline.name) (normalizeStageName lower (js needle))

def stageByName (stages : List Stage) (needles : List String) : Option Stage :=
  stages.find? fun stage => needles.all fun needle =>
    includes (normalizeStageName lower stage.name) (normalizeStageName lower (js needle))

def quoteLikeStages (stages : List Stage) : List Stage :=
  stages.filter fun stage =>
    (named lower stage.name "кп" && (named lower stage.name "презент" || named lower stage.name "отправ")) ||
      named lower stage.name "возраж" || named lower stage.name "предлож"

/-- The pipeline of repeat sales, if it has a won stage. -/
def repeatPipeline (pipeline : Pipeline) : Option RepeatPipeline :=
  let wonStages := businessWonStages lower pipeline.stages
  if wonStages = [] then none
  else some
    { id := pipeline.id, name := pipeline.name
      invoiceStage := stageByName lower pipeline.stages ["счет", "отправ"]
      quoteStages := quoteLikeStages lower pipeline.stages
      wonStages
      lossStages := pipeline.stages.filter fun stage => stage.isBusinessLost lower ||
        (normalizeStageName lower pipeline.name = normalizeStageName lower (js "База") &&
          named lower stage.name "свободная база") }

/-- A text for each thing that is not found. -/
def missing (found : Bool) (warning : JsString) : List JsString := if found then [] else [warning]

def resolveRevenueForecastRefs (pipelines : List Pipeline) (groups : List CrmGroup) : RevenueForecastRefs :=
  let salesPipeline := pipelineByName lower pipelines "воронка продажи"
  let assemblyPipeline := pipelineByName lower pipelines "воронка сборка"
  let basePipeline := pipelineByName lower pipelines "база"
  let assignedCompaniesPipeline := pipelineByName lower pipelines "закреплен"
  let salesStages := (salesPipeline.map Pipeline.stages).getD []
  let assemblyStages := (assemblyPipeline.map Pipeline.stages).getD []
  let invoiceStage := stageByName lower salesStages ["счет", "отправ"]
  let quoteStages := quoteLikeStages lower salesStages
  let salesWonStages := businessWonStages lower salesStages
  let shippingDoneStage := (assemblyStages.find? fun stage => named lower stage.name "отгруж") <|>
    assemblyStages.find? (Stage.isBusinessWon lower)
  let openAssemblyStages := assemblyStages.filter fun stage =>
    !stage.isBusinessWon lower && !stage.isBusinessLost lower
  let assemblyStartStage := (openAssemblyStages.find? fun stage => named lower stage.name "paid") <|>
    (openAssemblyStages.find? fun stage => named lower stage.name "оплач") <|> openAssemblyStages.head?
  let itemsInTransitStage := (openAssemblyStages.find? fun stage =>
      named lower stage.name "items" && named lower stage.name "transit") <|>
    openAssemblyStages.find? fun stage => 50 ≤ stage.position
  let repeatPipelines := [basePipeline, assignedCompaniesPipeline].filterMap fun pipeline =>
    pipeline.bind (repeatPipeline lower)
  { warnings :=
      missing salesPipeline.isSome (js "Не найдена воронка Продажи.") ++
      missing assemblyPipeline.isSome (js "Не найдена воронка Сборка.") ++
      missing basePipeline.isSome (js "Не найдена воронка База.") ++
      missing assignedCompaniesPipeline.isSome (js "Не найдена воронка Закрепленные Компании.") ++
      missing invoiceStage.isSome (js "Не найден этап Счёт отправлен.") ++
      missing (!quoteStages.isEmpty) (js "Не найдены этапы КП/возражения.") ++
      missing (!salesWonStages.isEmpty) (js "Не найден успешный этап продаж.") ++
      missing shippingDoneStage.isSome (js "Не найден этап отгружено в сборке.") ++
      missing assemblyStartStage.isSome (js "Не найден стартовый этап PAID! в Сборке.") ++
      missing itemsInTransitStage.isSome (js "Не найден этап Items in transit в Сборке.") ++
      repeatPipelines.flatMap fun pipeline =>
        missing pipeline.invoiceStage.isSome
          (js "Не найден этап Счёт отправлен в воронке " ++ pipeline.name ++ js ".") ++
        missing (!pipeline.quoteStages.isEmpty)
          (js "Не найден этап предложения/КП в воронке " ++ pipeline.name ++ js ".")
    salesPipeline, assemblyPipeline, salesWonStages
    salesLossStages := salesStages.filter (Stage.isBusinessLost lower)
    invoiceStage, quoteStages, repeatPipelines, shippingDoneStage, assemblyStartStage, itemsInTransitStage
    assemblyLossStages := assemblyStages.filter (Stage.isBusinessLost lower)
    assemblyStages := openAssemblyStages
    csmGroup := findCrmGroupByName lower groups "CSM" }

end Functions

end AmoAnalytics.Reports.RevenueForecast
