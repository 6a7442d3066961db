import AmoAnalytics.Lib.Collected
import AmoAnalytics.Lib.FirstOfEach
import AmoAnalytics.Reports.RevenueForecast

/-!
# The buckets of a data contract

A metric of a data contract collects its deals in the bucket of all and in that of each group. A bucket passes over an
occurrence it has, so the count of a bucket is that of the different occurrences of its group (`dealCount_eq`).
-/

namespace AmoAnalytics.Reports.Contract

open FirstOfEach JsMap

inductive GroupBy
  | manager
  | group
  | none
deriving DecidableEq

inductive Measure
  | dealCount
  | fieldSum
  | fieldAvg
deriving DecidableEq

structure Responsible where
  id : Option String
  groupId : Option String
deriving DecidableEq

/-- A deal of a report. `columns` are those of `fact_deal_current` that only the filters and the measure read. -/
structure ReportDeal (δ : Type*) where
  id : String
  pipelineId : String
  /-- The external id, the title, the stage, the pipeline and the time of the last update are withheld. -/
  redacted : Bool
  responsibleId : Option String
  responsible : Option Responsible
  /-- `__contractOccurrenceId`. -/
  occurrenceId : Option String
  /-- `__contractOccurredAt`. -/
  occurredAt : Option ℤ
  /-- `__contractExpectedAmount`. -/
  expectedAmount : Option ℚ
  columns : δ
deriving DecidableEq

/-- What the buckets read of a metric. -/
structure BucketMetric (δ : Type*) where
  /-- Of the type `weighted_stage_sum`. -/
  weighted : Bool
  measure : Measure
  /-- The number of the field measured. -/
  fieldNumber : ReportDeal δ → ℚ

structure ContractBucket (δ : Type*) where
  count : ℕ
  values : List ℚ
  dealIds : List String
  samples : List (ReportDeal δ)
deriving DecidableEq

variable {δ : Type*}

/-! ## `reports.service.ts` -/

def contractGroup (deal : ReportDeal δ) : GroupBy → String
  | .group => (deal.responsible.bind Responsible.groupId).getD "unassigned-group"
  | .manager => deal.responsibleId.getD "unassigned"
  | .none => "all"

def emptyContractBucket : ContractBucket δ := { count := 0, values := [], dealIds := [], samples := [] }

def bucketId (deal : ReportDeal δ) : String := deal.occurrenceId.getD deal.id

/-- The value a deal adds to a bucket, if any. -/
def bucketValue (metric : BucketMetric δ) (deal : ReportDeal δ) : Option ℚ :=
  if metric.weighted then some (deal.expectedAmount.getD 0)
  else
    match metric.measure with
    | .dealCount => none
    | .fieldSum | .fieldAvg => some (metric.fieldNumber deal)

def addDealToContractBucket (metric : BucketMetric δ) (bucket : ContractBucket δ) (deal : ReportDeal δ) :
    ContractBucket δ :=
  if bucketId deal ∈ bucket.dealIds then bucket
  else
    { count := bucket.count + 1
      values := bucket.values ++ (bucketValue metric deal).toList
      dealIds := bucket.dealIds ++ [bucketId deal]
      samples := bucket.samples ++ [deal] }
/-- A deal is added to the bucket of all, and to that of its group if it is another one. -/
def addToGroups (groupBy : GroupBy) (metric : BucketMetric δ) (byGroup : List (String × ContractBucket δ))
    (deal : ReportDeal δ) : List (String × ContractBucket δ) :=
  let groupId := contractGroup deal groupBy
  let bucket := fun id => (get? id byGroup).getD emptyContractBucket
  let byGroup := set "all" (addDealToContractBucket metric (bucket "all") deal) byGroup
  if groupId ≠ "all" then set groupId (addDealToContractBucket metric (bucket groupId) deal) byGroup else byGroup

def metricBuckets (groupBy : GroupBy) (metric : BucketMetric δ) (deals : List (ReportDeal δ)) :
    List (String × ContractBucket δ) :=
  deals.foldl (addToGroups groupBy metric) [("all", emptyContractBucket)]

/-- The count of a row: nothing where the metric has no bucket. -/
def dealCount (byGroup : List (String × ContractBucket δ)) (group : String) : ℕ :=
  ((get? group byGroup).map ContractBucket.count).getD 0

/-! ## One bucket -/

section Bucket

variable {metric : BucketMetric δ}

/-- A bucket the deals are added to one after another. -/
def bucketOf (metric : BucketMetric δ) (deals : List (ReportDeal δ)) : ContractBucket δ :=
  deals.foldl (addDealToContractBucket metric) emptyContractBucket

theorem bucketOf_append_singleton (deals : List (ReportDeal δ)) (deal : ReportDeal δ) :
    bucketOf metric (deals ++ [deal]) = addDealToContractBucket metric (bucketOf metric deals) deal := by
  rw [bucketOf, List.foldl_append, List.foldl_cons, List.foldl_nil, bucketOf]

/-- A bucket holds the first deal of each occurrence. -/
theorem bucketOf_eq (deals : List (ReportDeal δ)) :
    bucketOf metric deals =
      { count := (firstOfEach bucketId deals).length
        values := (firstOfEach bucketId deals).filterMap (bucketValue metric)
        dealIds := (firstOfEach bucketId deals).map bucketId
        samples := firstOfEach bucketId deals } := by
  induction deals using List.reverseRecOn with
  | nil => rfl
  | append_singleton deals deal ih =>
    rw [bucketOf_append_singleton, ih, addDealToContractBucket, firstOfEach_append_singleton, keepNew]
    dsimp only
    split_ifs
    · rfl
    · have hvalue : (bucketValue metric deal).toList = [deal].filterMap (bucketValue metric) := by
        cases h : bucketValue metric deal <;> simp [h]
      rw [List.length_append, List.length_singleton, List.filterMap_append, List.map_append, List.map_singleton,
        hvalue]

end Bucket

/-! ## The buckets of a metric -/

section Buckets

variable {groupBy : GroupBy} {metric : BucketMetric δ}

/-- The bucket of all takes every deal, another one those of its group. -/
def inGroup (groupBy : GroupBy) (group : String) (deal : ReportDeal δ) : Bool :=
  group = "all" || contractGroup deal groupBy = group

theorem get?_addToGroups (byGroup : List (String × ContractBucket δ)) (deal : ReportDeal δ) (group : String) :
    get? group (addToGroups groupBy metric byGroup deal) =
      if inGroup groupBy group deal then
        some (addDealToContractBucket metric ((get? group byGroup).getD emptyContractBucket) deal)
      else get? group byGroup := by
  unfold addToGroups
  dsimp only
  by_cases hall : group = "all"
  · have hin : inGroup groupBy group deal = true := by simp [inGroup, hall]
    subst hall
    rw [if_pos hin]
    by_cases hgroup : contractGroup deal groupBy = "all"
    · rw [if_neg (not_not_intro hgroup), get?_set, if_pos rfl]
    · rw [if_pos hgroup, get?_set, if_neg hgroup, get?_set, if_pos rfl]
  · by_cases hgroup : contractGroup deal groupBy = group
    · have hin : inGroup groupBy group deal = true := by simp [inGroup, hgroup]
      rw [if_pos hin, hgroup, if_pos hall, get?_set, if_pos rfl]
    · have hin : ¬ inGroup groupBy group deal = true := by simp [inGroup, hall, hgroup]
      rw [if_neg hin]
      by_cases hother : contractGroup deal groupBy = "all"
      · rw [if_neg (not_not_intro hother), get?_set, if_neg (Ne.symm hall)]
      · rw [if_pos hother, get?_set, if_neg hgroup, get?_set, if_neg (Ne.symm hall)]

/-- The bucket of a group is that of its deals; a group without deals has none. -/
theorem get?_metricBuckets (deals : List (ReportDeal δ)) (group : String) :
    get? group (metricBuckets groupBy metric deals) =
      if group = "all" ∨ deals.filter (inGroup groupBy group) ≠ [] then
        some (bucketOf metric (deals.filter (inGroup groupBy group)))
      else none := by
  induction deals using List.reverseRecOn with
  | nil =>
    rw [metricBuckets, List.foldl_nil, get?_cons]
    by_cases hall : group = "all"
    · rw [if_pos hall.symm, if_pos (.inl hall)]
      rfl
    · rw [if_neg (Ne.symm hall), if_neg (by simp [hall])]
      rfl
  | append_singleton deals deal ih =>
    rw [metricBuckets, List.foldl_append, List.foldl_cons, List.foldl_nil, ← metricBuckets, get?_addToGroups, ih,
      List.filter_append, List.filter_singleton]
    cases hin : inGroup groupBy group deal with
    | false =>
      rw [cond_false, List.append_nil, if_neg Bool.false_ne_true]
    | true =>
      have hsome : group = "all" ∨ deals.filter (inGroup groupBy group) ++ [deal] ≠ [] :=
        .inr (List.append_ne_nil_of_right_ne_nil _ (List.cons_ne_nil _ _))
      rw [cond_true, if_pos rfl, if_pos hsome, bucketOf_append_singleton]
      by_cases hold : group = "all" ∨ deals.filter (inGroup groupBy group) ≠ []
      · rw [if_pos hold, Option.getD_some]
      · rw [if_neg hold, Option.getD_none, not_ne_iff.1 (not_or.1 hold).2]
        rfl

/-- The count of a group is the number of its different occurrences. -/
theorem dealCount_eq (deals : List (ReportDeal δ)) (group : String) :
    dealCount (metricBuckets groupBy metric deals) group =
      (firstOfEach bucketId (deals.filter (inGroup groupBy group))).length := by
  rw [dealCount, get?_metricBuckets]
  split_ifs with h
  · rw [Option.map_some, Option.getD_some, bucketOf_eq]
  · rw [not_ne_iff.1 (not_or.1 h).2]
    rfl

end Buckets

end AmoAnalytics.Reports.Contract
