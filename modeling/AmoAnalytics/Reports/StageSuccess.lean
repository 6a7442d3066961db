import AmoAnalytics.Lib.CivilDate
import AmoAnalytics.Lib.Collected
import AmoAnalytics.Reports.ForecastRefs

/-!
# The success shares of the stages

`computeStageSuccessProbabilityModel` of `reports.service.ts`: every deal that ended within thirty days adds an
observation, won or not, to the statistics of its manager and of all managers. With grouped stages it adds one to the
metric, otherwise one to each configured stage, if it reached any of them.
-/

namespace AmoAnalytics.Reports.StageSuccess

open CivilDate RevenueForecast

/-! ## Tables -/

structure StageRow where
  id : String
  pipelineId : String
  name : JsString
  isLost : Bool
  pipelineName : JsString

structure Transition where
  dealId : String
  fromStageId : Option String
  toStageId : String
  movedAt : ℤ
deriving DecidableEq

structure FactDeal where
  dealId : String
  responsibleId : Option String
  deletedAt : Option ℤ

structure Database where
  stages : List StageRow
  transitions : List Transition
  deals : List FactDeal
  dealKeys : (deals.map FactDeal.dealId).Nodup

structure Options where
  pipelineIds : List String
  stageIds : List String
  successStageByPipelineId : List (String × String)
  successStageIdsByPipelineId : List (String × List String)
  groupStageIds : Bool
  reachedStageIds : List String
  inferSuccessAsReached : Bool
  defaultProbability : ℚ
  now : ℤ

/-! ## Statistics -/

/-- The part of a key before the colon. -/
inductive Manager
  | all
  /-- `'unassigned'` if there is none. -/
  | of (responsibleId : Option String)
deriving DecidableEq

/-- The part after it. -/
inductive Scope
  | all
  | metric
  | stage (id : String)
deriving DecidableEq

structure StatKey where
  manager : Manager
  scope : Scope
deriving DecidableEq

structure Stat where
  sample : ℕ
  wins : ℕ
deriving DecidableEq

abbrev Stats := List (StatKey × Stat)

/-- The entry of a deal into a terminal stage, with the responsible of the deal. -/
structure TerminalEntry where
  dealId : String
  fromStageId : Option String
  toStageId : String
  movedAt : ℤ
  responsibleId : Option String

section Functions

/-- `[...new Set(items.filter(Boolean))]`. -/
def distinctIds (items : List String) : List String := JsMap.distinct (items.filter (· ≠ ""))

/-- `lower` is `toLowerCase`. -/
def isBaseFreeBaseStage (lower : JsString → JsString) (stage : StageRow) : Bool :=
  normalizeStageName lower stage.pipelineName = normalizeStageName lower (JsText.js "База") &&
    JsText.includes (normalizeStageName lower stage.name) (normalizeStageName lower (JsText.js "Свободная база"))

def probabilityLossStageIds (lower : JsString → JsString) (stages : List StageRow) (pipelineIds : List String) :
    List String :=
  ((stages.filter fun stage => stage.pipelineId ∈ pipelineIds).filter fun stage =>
    stage.isLost || isBaseFreeBaseStage lower stage).map StageRow.id

def normalizeSuccessStageIds (options : Options) : List (String × List String) :=
  (options.successStageByPipelineId.filter fun entry => entry.2 ≠ "").foldl
    (fun normalized entry => JsMap.set entry.1
      (JsMap.distinct ((JsMap.get? entry.1 normalized).getD [] ++ [entry.2])) normalized)
    (JsMap.ofEntries (options.successStageIdsByPipelineId.map fun entry => (entry.1, distinctIds entry.2)))

variable (lower : JsString → JsString) (db : Database) (options : Options)

def pipelineIds : List String := distinctIds options.pipelineIds

def stageIds : List String := distinctIds options.stageIds

def reachedStageIds : List String := distinctIds (options.reachedStageIds ++ stageIds options)

def successStageIds : List String := distinctIds ((normalizeSuccessStageIds options).flatMap Prod.snd)

def periodFrom : ℤ := options.now - 30 * day

/-- The stages asked for. -/
def stageRows : List StageRow :=
  db.stages.filter fun stage => stage.id ∈ reachedStageIds options ++ successStageIds options ∨
    stage.pipelineId ∈ pipelineIds options

def terminalStageIds : List String :=
  JsMap.distinct (successStageIds options ++
    probabilityLossStageIds lower (stageRows db options) (pipelineIds options))

/-- `ORDER BY deal_id, moved_at`. -/
def byDealAndTime (a b : Transition) : Prop := toLex (a.dealId, a.movedAt) ≤ toLex (b.dealId, b.movedAt)

instance : DecidableRel byDealAndTime := fun _ _ => inferInstanceAs (Decidable (_ ≤ _))

def terminalEntries : List TerminalEntry :=
  ((db.transitions.filter fun transition => transition.toStageId ∈ terminalStageIds lower db options ∧
    periodFrom options ≤ transition.movedAt ∧ transition.movedAt ≤ options.now).insertionSort byDealAndTime).filterMap
      fun transition =>
        (db.deals.find? fun deal => deal.dealId = transition.dealId ∧ deal.deletedAt = none).map fun deal =>
          { dealId := transition.dealId, fromStageId := transition.fromStageId, toStageId := transition.toStageId
            movedAt := transition.movedAt, responsibleId := deal.responsibleId }

/-- `lastTerminalByDeal`: the last entry of each deal. -/
def lastTerminals : List TerminalEntry :=
  JsMap.values (JsMap.ofEntries ((terminalEntries lower db options).map fun entry => (entry.dealId, entry)))

/-- `dealEntries`: the history of the deal up to the terminal entry. -/
def dealEntries (terminal : TerminalEntry) : List Transition :=
  ((db.transitions.filter fun entry => entry.dealId = terminal.dealId ∧ entry.movedAt ≤ options.now).insertionSort
    byDealAndTime).filter fun entry => entry.movedAt ≤ terminal.movedAt

def won (terminal : TerminalEntry) : Bool := terminal.toStageId ∈ successStageIds options

def probabilityStageReached (terminal : TerminalEntry) : Bool :=
  (won options terminal && options.inferSuccessAsReached) ||
    ((dealEntries db options terminal).any fun entry => entry.toStageId ∈ reachedStageIds options ||
      entry.fromStageId.any (· ∈ reachedStageIds options)) ||
    terminal.fromStageId.any (· ∈ reachedStageIds options)

/-- The stage is one of the pipelines asked for. -/
def isCounted (stageId : String) : Bool :=
  (JsMap.get? stageId (JsMap.ofEntries ((stageRows db options).map fun stage => (stage.id, stage.pipelineId)))).any
    fun pipelineId => pipelineId ≠ "" && pipelineId ∈ pipelineIds options

def keysOf (scope : Scope) (terminal : TerminalEntry) : List StatKey :=
  [⟨.of terminal.responsibleId, scope⟩, ⟨.all, scope⟩, ⟨.of terminal.responsibleId, .all⟩, ⟨.all, .all⟩]

/-- The calls of `add` for a deal. -/
def additions (terminal : TerminalEntry) : List (StatKey × Bool) :=
  if options.groupStageIds then
    if probabilityStageReached db options terminal then
      (keysOf .metric terminal).map fun key => (key, won options terminal)
    else []
  else (stageIds options).flatMap fun stageId =>
    if isCounted db options stageId && probabilityStageReached db options terminal then
      (keysOf (.stage stageId) terminal).map fun key => (key, won options terminal)
    else []

/-- `add`. -/
def addTo (stat : Option Stat) (addition : StatKey × Bool) : Stat :=
  let stat := stat.getD ⟨0, 0⟩
  ⟨stat.sample + 1, if addition.2 then stat.wins + 1 else stat.wins⟩

def statistics : Stats :=
  JsMap.collect Prod.fst addTo ((lastTerminals lower db options).flatMap (additions db options)) []

def getStat (stats : Stats) (key : StatKey) : Stat := (JsMap.get? key stats).getD ⟨0, 0⟩

def rate (stat : Stat) : Option ℚ := if 0 < stat.sample then some (stat.wins / stat.sample) else none

end Functions

end AmoAnalytics.Reports.StageSuccess
