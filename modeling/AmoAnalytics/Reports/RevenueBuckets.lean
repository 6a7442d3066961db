import AmoAnalytics.Lib.CellSum
import AmoAnalytics.Reports.RevenueForecast

/-!
# Every deal in one bucket

The deals of the forecast come from several selections. A deal is placed once for each selection that picks it, so the
forecast counts it once when one of them does (`countedOnce_iff`).
-/

namespace AmoAnalytics.Reports.RevenueForecast

open CivilDate JsText

/-! ## Selections -/

/-- A part of the forecast: the deals it picks and the side of the bucket each is put in. -/
structure Selection where
  picks : FactDeal → Bool
  side : FactDeal → Side

section Selections

variable (lower : JsString → JsString) (db : Database) (refs : ReadyRefs) (filters : ReportFilters) (now : ℤ)

/-- A deal the filters keep in a pipeline. -/
def Kept (pipelineId : String) (deal : FactDeal) : Prop :=
  deal.deletedAt = none ∧ deal.pipelineId = pipelineId ∧ deal.stageId ∉ filters.excludeStageIds ∧
    filters.matches_ pipelineId deal = true

instance (pipelineId : String) (deal : FactDeal) : Decidable (Kept filters pipelineId deal) :=
  inferInstanceAs (Decidable (_ ∧ _))

/-- It entered the shipment stage this month, up to today. -/
def Shipped (deal : FactDeal) : Prop :=
  ∃ entry ∈ db.transitions, entry.dealId = deal.dealId ∧ entry.toStageId = refs.shippingDoneStageId ∧
    entry.pipelineId = refs.assemblyPipelineId ∧ startOfMoscowMonth now ≤ entry.movedAt ∧
      entry.movedAt ≤ endOfMoscowDay now

instance (deal : FactDeal) : Decidable (Shipped db refs now deal) :=
  inferInstanceAs (Decidable (∃ entry ∈ db.transitions, _))

def shippedSelection : Selection where
  picks deal := Kept filters refs.assemblyPipelineId deal ∧ Shipped db refs now deal
  side := assemblySide db refs

def assemblySelection : Selection where
  picks deal := Kept filters refs.assemblyPipelineId deal ∧ ¬ Shipped db refs now deal ∧
    deal.stageId ≠ refs.shippingDoneStageId ∧ ¬ isBusinessWonStage lower deal.stageIsWon deal.stageName ∧
      ¬ isBusinessLostStage lower deal.stageIsLost deal.stageName
  side := assemblySide db refs

/-- The deals of some stages without a confirmed shipment. -/
def stageSelection (side : Side) (pipelineId : String) (stageIds : List String) : Selection where
  picks deal := Kept filters pipelineId deal ∧ (stageIds = [] ∨ deal.stageId ∈ stageIds) ∧
    deal.dealId ∉ db.transferred
  side _ := side

def repeatSelections (pipeline : RepeatPipeline) : List Selection :=
  [match pipeline.invoiceStage with
    | some stage => stageSelection db filters .repeats pipeline.id [stage.id]
    | none => ⟨fun _ => false, fun _ => .repeats⟩,
    if pipeline.quoteStages = [] then ⟨fun _ => false, fun _ => .repeats⟩
    else stageSelection db filters .repeats pipeline.id (pipeline.quoteStages.map Stage.id)]

def selections : List Selection :=
  [shippedSelection db refs filters now, assemblySelection lower db refs filters now,
    stageSelection db filters .sales refs.salesPipelineId [refs.invoiceStageId],
    stageSelection db filters .sales refs.salesPipelineId refs.quoteStageIds] ++
  refs.repeatPipelines.flatMap (repeatSelections db filters)

/-- The deals of a selection with their sides. -/
def Selection.deals (selection : Selection) : List (FactDeal × Side) :=
  (db.facts.filter selection.picks).map fun deal => (deal, selection.side deal)

end Selections

/-! ## The deals of each part -/

section Parts

variable {lower : JsString → JsString} {db : Database} {refs : ReadyRefs} {filters : ReportFilters} {now : ℤ}

theorem nodup_facts : db.facts.Nodup := List.Nodup.of_map _ db.factKeys

theorem fact_eq {deal deal' : FactDeal} (h : deal ∈ db.facts) (h' : deal' ∈ db.facts)
    (hid : deal.dealId = deal'.dealId) : deal = deal' := List.inj_on_of_nodup_map db.factKeys h h' hid

theorem mem_shippingEntries {assemblyPipelineId shippingDoneStageId : String} {entry : StageTransition} :
    entry ∈ shippingEntries db now assemblyPipelineId shippingDoneStageId ↔ entry ∈ db.transitions ∧
      entry.toStageId = shippingDoneStageId ∧ entry.pipelineId = assemblyPipelineId ∧
        startOfMoscowMonth now ≤ entry.movedAt ∧ entry.movedAt ≤ endOfMoscowDay now := by
  rw [shippingEntries, List.mem_insertionSort, List.mem_filter, decide_eq_true_eq]

theorem shipped_iff {deal : FactDeal} : Shipped db refs now deal ↔
    deal.dealId ∈ (shippingEntries db now refs.assemblyPipelineId refs.shippingDoneStageId).map
      StageTransition.dealId := by
  rw [List.mem_map]
  constructor
  · rintro ⟨entry, hentry, hid, hcond⟩
    exact ⟨entry, mem_shippingEntries.2 ⟨hentry, hcond⟩, hid⟩
  · rintro ⟨entry, hentry, hid⟩
    obtain ⟨hmem, hcond⟩ := mem_shippingEntries.1 hentry
    exact ⟨entry, hmem, hid, hcond⟩

theorem nodup_getActualShipping : ((getActualShipping db filters now refs.assemblyPipelineId
    refs.shippingDoneStageId).map Prod.fst).Nodup :=
  JsMap.nodup_keys_collect _ _ (show ([].map _).Nodup from List.nodup_nil)

/-- The shipped deals are the ones of their selection, by their ids. -/
theorem mem_getActualShipping {id : String} {deal : FactDeal} :
    (∃ t, (id, deal, t) ∈ getActualShipping db filters now refs.assemblyPipelineId refs.shippingDoneStageId) ↔
      id = deal.dealId ∧ deal ∈ db.facts ∧ (shippedSelection db refs filters now).picks deal = true := by
  set entries := shippingEntries db now refs.assemblyPipelineId refs.shippingDoneStageId with hentries
  set matched := db.facts.filter fun deal => deal.deletedAt = none ∧ deal.pipelineId = refs.assemblyPipelineId ∧
    deal.stageId ∉ filters.excludeStageIds ∧ filters.matches_ refs.assemblyPipelineId deal ∧
      deal.dealId ∈ entries.map StageTransition.dealId
  set items := entries.filterMap fun entry => (JsMap.get? entry.dealId (JsMap.ofEntries (matched.map fun deal =>
    (deal.dealId, deal)))).map fun deal => (deal, entry.movedAt)
  have hmatched : ∀ {deal}, deal ∈ matched ↔
      deal ∈ db.facts ∧ (shippedSelection db refs filters now).picks deal = true := by
    intro deal
    simp only [matched, List.mem_filter, decide_eq_true_eq, shippedSelection, Kept, shipped_iff, ← hentries,
      and_assoc]
  have hkeys : ((matched.map fun deal => (deal.dealId, deal)).map Prod.fst).Nodup := by
    rw [List.map_map]
    exact (List.filter_sublist.map FactDeal.dealId).nodup db.factKeys
  have hget : ∀ {id deal}, JsMap.get? id (JsMap.ofEntries (matched.map fun deal => (deal.dealId, deal))) = some deal ↔
      deal ∈ matched ∧ deal.dealId = id := by
    intro id deal
    rw [JsMap.ofEntries_of_nodup hkeys, JsMap.get?_eq_some_iff hkeys, List.mem_map]
    constructor
    · rintro ⟨deal, hdeal, heq⟩
      cases heq
      exact ⟨hdeal, rfl⟩
    · rintro ⟨hdeal, rfl⟩
      exact ⟨deal, hdeal, rfl⟩
  have hitem : ∀ {item}, item ∈ items → item.1 ∈ matched := by
    intro item hitem
    obtain ⟨entry, -, hsome⟩ := List.mem_filterMap.1 hitem
    obtain ⟨deal, hdeal, rfl⟩ := Option.map_eq_some_iff.1 hsome
    exact (hget.1 hdeal).1
  have hfind : ∀ {t}, (id, deal, t) ∈ getActualShipping db filters now refs.assemblyPipelineId
      refs.shippingDoneStageId ↔ (items.find? fun item => item.1.dealId = id) = some (deal, t) := by
    intro t
    rw [← JsMap.get?_eq_some_iff nodup_getActualShipping, getActualShipping, JsMap.get?_collect_first]
  simp only [hfind]
  rw [← hmatched]
  constructor
  · rintro ⟨t, hsome⟩
    have hid := List.find?_some hsome
    exact ⟨(of_decide_eq_true hid).symm, hitem (List.mem_of_find?_eq_some hsome)⟩
  · rintro ⟨rfl, hdeal⟩
    obtain ⟨entry, hentry, hid⟩ := List.mem_map.1 (shipped_iff.1 (of_decide_eq_true (hmatched.1 hdeal).2).2)
    have hmem : (deal, entry.movedAt) ∈ items :=
      List.mem_filterMap.2 ⟨entry, hentry, Option.map_eq_some_iff.2 ⟨deal, hget.2 ⟨hdeal, hid.symm⟩, rfl⟩⟩
    cases hsome : items.find? fun item => item.1.dealId = deal.dealId with
    | none => exact absurd (decide_eq_true rfl) (List.find?_eq_none.1 hsome _ hmem)
    | some item =>
      have hid : item.1.dealId = deal.dealId := by simpa using List.find?_some hsome
      have hfact := (hmatched.1 (hitem (List.mem_of_find?_eq_some hsome))).1
      exact ⟨item.2, by rw [← fact_eq hfact (hmatched.1 hdeal).1 hid]⟩

theorem perm_getActualShipping : ((getActualShipping db filters now refs.assemblyPipelineId
    refs.shippingDoneStageId).map fun entry => entry.2.1).Perm
      (db.facts.filter (shippedSelection db refs filters now).picks) := by
  have hkeys : ((getActualShipping db filters now refs.assemblyPipelineId refs.shippingDoneStageId).map
      Prod.fst).Nodup := nodup_getActualShipping
  have hid : ∀ entry ∈ getActualShipping db filters now refs.assemblyPipelineId refs.shippingDoneStageId,
      entry.1 = entry.2.1.dealId := fun entry hentry => (mem_getActualShipping.1 ⟨entry.2.2, hentry⟩).1
  have hnodup : ((getActualShipping db filters now refs.assemblyPipelineId refs.shippingDoneStageId).map
      fun entry => entry.2.1).Nodup := by
    have hsame : (getActualShipping db filters now refs.assemblyPipelineId refs.shippingDoneStageId).map
        (FactDeal.dealId ∘ fun entry => entry.2.1) = (getActualShipping db filters now refs.assemblyPipelineId
          refs.shippingDoneStageId).map Prod.fst :=
      List.map_congr_left fun entry hentry => (hid entry hentry).symm
    refine List.Nodup.of_map FactDeal.dealId ?_
    rw [List.map_map, hsame]
    exact hkeys
  rw [List.perm_ext_iff_of_nodup hnodup (nodup_facts.filter _)]
  intro deal
  rw [List.mem_map, List.mem_filter]
  constructor
  · rintro ⟨⟨id, deal, t⟩, hentry, rfl⟩
    exact (mem_getActualShipping.1 ⟨t, hentry⟩).2
  · intro h
    obtain ⟨t, hentry⟩ := mem_getActualShipping.2 ⟨rfl, h⟩
    exact ⟨_, hentry, rfl⟩

theorem mem_shippedIds {deal : FactDeal} (hdeal : deal ∈ db.facts)
    (hkept : Kept filters refs.assemblyPipelineId deal) :
    deal.dealId ∈ (getActualShipping db filters now refs.assemblyPipelineId refs.shippingDoneStageId).map Prod.fst ↔
      Shipped db refs now deal := by
  rw [List.mem_map]
  constructor
  · rintro ⟨⟨id, other, t⟩, hentry, hid⟩
    obtain ⟨hother, hfact, hpicks⟩ := mem_getActualShipping.1 ⟨t, hentry⟩
    obtain rfl := fact_eq hfact hdeal (hother.symm.trans hid)
    exact (of_decide_eq_true hpicks).2
  · intro hshipped
    have hpicks : (shippedSelection db refs filters now).picks deal = true := decide_eq_true ⟨hkept, hshipped⟩
    obtain ⟨t, hentry⟩ := mem_getActualShipping.2 ⟨rfl, hdeal, hpicks⟩
    exact ⟨_, hentry, rfl⟩

theorem perm_findCurrentStageDeals (pipelineId : String) (stageIds excludeStageIds : List String) :
    (findCurrentStageDeals db filters pipelineId stageIds excludeStageIds).Perm
      (db.facts.filter fun deal => deal.deletedAt = none ∧ deal.pipelineId = pipelineId ∧
        (stageIds = [] ∨ deal.stageId ∈ stageIds) ∧ deal.stageId ∉ excludeStageIds ∧
          filters.matches_ pipelineId deal) := List.perm_insertionSort _ _

theorem perm_assemblyDeals : (assemblyDeals lower db refs filters ((getActualShipping db filters now
    refs.assemblyPipelineId refs.shippingDoneStageId).map Prod.fst)).Perm
      (db.facts.filter (assemblySelection lower db refs filters now).picks) := by
  refine ((perm_findCurrentStageDeals _ _ _).filter _).trans ?_
  rw [List.filter_filter]
  refine List.Perm.of_eq (List.filter_congr fun deal hdeal => ?_)
  rw [Bool.eq_iff_iff]
  simp only [assemblySelection, Bool.and_eq_true, decide_eq_true_eq, List.mem_append, List.mem_singleton, true_or,
    true_and, not_or]
  constructor
  · rintro ⟨⟨hshipped, hwon, hlost⟩, hdeleted, hpipeline, ⟨hexcluded, hdone⟩, hmatches⟩
    have hkept : Kept filters refs.assemblyPipelineId deal := ⟨hdeleted, hpipeline, hexcluded, hmatches⟩
    exact ⟨hkept, fun h => hshipped ((mem_shippedIds hdeal hkept).2 h), hdone, hwon, hlost⟩
  · rintro ⟨hkept, hshipped, hdone, hwon, hlost⟩
    exact ⟨⟨fun h => hshipped ((mem_shippedIds hdeal hkept).1 h), hwon, hlost⟩, hkept.1, hkept.2.1,
      ⟨hkept.2.2.1, hdone⟩, hkept.2.2.2⟩

theorem perm_stageDeals (side : Side) (pipelineId : String) (stageIds : List String) :
    (stageDeals db filters pipelineId stageIds).Perm
      (db.facts.filter (stageSelection db filters side pipelineId stageIds).picks) := by
  refine ((perm_findCurrentStageDeals _ _ _).filter _).trans ?_
  rw [List.filter_filter]
  refine List.Perm.of_eq (List.filter_congr fun deal _ => ?_)
  rw [Bool.eq_iff_iff]
  simp only [stageSelection, Bool.and_eq_true, decide_eq_true_eq]
  unfold Kept
  tauto

/-! ## The placements -/

/-- The deal of a placement and the side of its bucket. -/
def Placement.target (p : Placement) : FactDeal × Side := (p.deal, p.bucketKey.side)

theorem target_openPlacement {predict : String → Prediction} {likely unlikely : FactDeal → BucketKey}
    {source : FactDeal → Prediction → JsString} (side : FactDeal → Side)
    (hlikely : ∀ deal, (likely deal).side = side deal)
    (hunlikely : ∀ deal, (unlikely deal).side = side deal) (deals : List FactDeal) :
    (deals.map (openPlacement predict likely unlikely source)).map Placement.target =
      deals.map fun deal => (deal, side deal) := by
  rw [List.map_map]
  refine List.map_congr_left fun deal _ => ?_
  rw [Function.comp_apply, openPlacement, Placement.target]
  dsimp only
  split_ifs
  · rw [hlikely]
  · rw [hunlikely]

theorem side_shippedBucket (deal : FactDeal) :
    (revenueForecastShippedBucket db refs deal).side = assemblySide db refs deal := by
  unfold revenueForecastShippedBucket
  cases assemblySide db refs deal <;> rfl

theorem side_shippingBucket (deal : FactDeal) (inMonth : Bool) :
    (revenueForecastShippingBucket db refs deal inMonth).side = assemblySide db refs deal := by
  unfold revenueForecastShippingBucket
  cases assemblySide db refs deal <;> cases inMonth <;> rfl

theorem perm_repeat (predict : String → Prediction) (pipeline : RepeatPipeline) :
    ((((repeatInvoiceDeals db filters pipeline).map (openPlacement predict (fun _ => .repeatInvoiceThisMonth)
        (fun _ => .repeatNotThisMonth) fun _ _ => pipeline.name ++ js ": счёт × отгрузка")) ++
      (repeatQuoteDeals db filters pipeline).map (openPlacement predict (fun _ => .repeatQuoteThisMonth)
        (fun _ => .repeatNotThisMonth) fun _ _ => pipeline.name ++ js ": КП × отгрузка")).map Placement.target).Perm
      ((repeatSelections db filters pipeline).flatMap (Selection.deals db)) := by
  rw [List.map_append, target_openPlacement (fun _ => .repeats) (fun _ => rfl) (fun _ => rfl),
    target_openPlacement (fun _ => .repeats) (fun _ => rfl) (fun _ => rfl), repeatSelections, List.flatMap_cons,
    List.flatMap_cons, List.flatMap_nil, List.append_nil]
  refine List.Perm.append ?_ ?_
  · unfold repeatInvoiceDeals
    cases pipeline.invoiceStage with
    | none => simp [Selection.deals]
    | some stage => exact (perm_stageDeals _ _ _).map _
  · unfold repeatQuoteDeals
    split_ifs
    · simp [Selection.deals]
    · exact (perm_stageDeals _ _ _).map _

/-- The placements are the picks of the selections. -/
theorem perm_placements (predict : String → Prediction) :
    ((placements lower db refs filters predict now).map Placement.target).Perm
      ((selections lower db refs filters now).flatMap (Selection.deals db)) := by
  unfold placements selections
  dsimp only
  rw [List.map_append, List.map_append, List.map_append, List.map_append, List.flatMap_append, List.flatMap_cons,
    List.flatMap_cons, List.flatMap_cons, List.flatMap_cons, List.flatMap_nil, List.append_nil, ← List.append_assoc,
    ← List.append_assoc]
  refine List.Perm.append (List.Perm.append (List.Perm.append (List.Perm.append ?_ ?_) ?_) ?_) ?_
  · rw [List.map_map]
    refine List.Perm.trans (List.Perm.of_eq ?_)
      (perm_getActualShipping.map fun deal => (deal, assemblySide db refs deal))
    rw [List.map_map]
    refine List.map_congr_left fun entry _ => ?_
    exact Prod.ext rfl (side_shippedBucket entry.2.1)
  · rw [target_openPlacement (assemblySide db refs) (fun deal => side_shippingBucket deal true) fun deal =>
      side_shippingBucket deal false]
    exact perm_assemblyDeals.map _
  · rw [target_openPlacement (fun _ => .sales) (fun _ => rfl) fun _ => rfl]
    exact (perm_stageDeals _ _ _).map _
  · rw [target_openPlacement (fun _ => .sales) (fun _ => rfl) fun _ => rfl]
    exact (perm_stageDeals _ _ _).map _
  · rw [List.map_flatMap, List.flatMap_assoc]
    exact List.Perm.flatMap_left _ fun pipeline _ => perm_repeat predict pipeline

/-! ## The buckets -/

theorem foldl_addDeal (ps : List Placement) (bs : Buckets) (key : BucketKey) :
    (ps.foldl (addDeal db) bs key).count = (bs key).count + (ps.filter fun p => p.bucketKey = key).length ∧
      (ps.foldl (addDeal db) bs key).deals =
        (bs key).deals ++ (ps.filter fun p => p.bucketKey = key).map (Placement.entry db) := by
  induction ps generalizing bs with
  | nil => simp
  | cons p ps ih =>
    obtain ⟨hcount, hdeals⟩ := ih (addDeal db bs p)
    rw [List.foldl_cons, hcount, hdeals, addDeal]
    by_cases hkey : p.bucketKey = key
    · subst hkey
      rw [Function.update_self, List.filter_cons_of_pos (by simp), List.length_cons, List.map_cons]
      refine ⟨?_, by simp⟩
      dsimp only
      omega
    · rw [Function.update_of_ne (Ne.symm hkey), List.filter_cons_of_neg (by simpa using hkey)]
      exact ⟨rfl, rfl⟩

theorem buckets_count (predict : String → Prediction) (key : BucketKey) :
    (buckets lower db refs filters predict now key).count =
      ((placements lower db refs filters predict now).filter fun p => p.bucketKey = key).length := by
  rw [buckets, (foldl_addDeal _ _ key).1]
  exact Nat.zero_add _

theorem buckets_deals (predict : String → Prediction) (key : BucketKey) :
    (buckets lower db refs filters predict now key).deals =
      ((placements lower db refs filters predict now).filter fun p => p.bucketKey = key).map
        (Placement.entry db) := by
  rw [buckets, (foldl_addDeal _ _ key).2]
  rfl

/-- The rows count the placements that the workspace does not hide. -/
theorem rowCounts (predict : String → Prediction) :
    ((rows filters (buckets lower db refs filters predict now)).map Row.count).sum =
      ((placements lower db refs filters predict now).filter fun p =>
        hides filters.workspace p.bucketKey.side = false).length := by
  set ps := placements lower db refs filters predict now
  set bs := buckets lower db refs filters predict now
  set keys := (BucketKey.all.filter fun key => key.side ≠ .unassigned ∨ 0 < (bs key).count).filter fun key =>
    !hides filters.workspace key.side with hkeys
  have hnodup : keys.Nodup := (show BucketKey.all.Nodup by decide).filter _ |>.filter _
  have hmem : ∀ p ∈ ps, hides filters.workspace p.bucketKey.side = false → p.bucketKey ∈ keys := by
    intro p hp hshown
    have hall : p.bucketKey ∈ BucketKey.all := by cases p.bucketKey <;> decide
    have hcount : 0 < (bs p.bucketKey).count := by
      rw [buckets_count]
      exact List.length_pos_of_mem (List.mem_filter.2 ⟨hp, decide_eq_true rfl⟩)
    simp only [hkeys, List.mem_filter, decide_eq_true_eq, hshown]
    exact ⟨⟨hall, .inr hcount⟩, rfl⟩
  have hsum : ((rows filters bs).map Row.count).sum =
      ∑ key ∈ keys.toFinset, ((ps.filter fun p => p.bucketKey = key).map fun _ => 1).sum := by
    rw [rows, List.map_map, List.sum_toFinset _ hnodup]
    congr 1
    refine List.map_congr_left fun key _ => ?_
    rw [List.map_const', List.sum_replicate, smul_eq_mul, mul_one]
    exact buckets_count predict key
  have hcells : ∑ key ∈ keys.toFinset, ((ps.filter fun p => p.bucketKey = key).map fun _ => 1).sum =
      ((ps.filter fun p => hides filters.workspace p.bucketKey.side = false).map fun _ => 1).sum := by
    refine sum_cells (fun p hp => ?_) (fun key _ key' _ p _ h h' => h.symm.trans h') _
    constructor
    · exact fun hshown => ⟨p.bucketKey, List.mem_toFinset.2 (hmem p hp hshown), rfl⟩
    · rintro ⟨key, hkey, rfl⟩
      simpa using (List.mem_filter.1 (List.mem_toFinset.1 hkey)).2
  rw [hsum, hcells, List.map_const', List.sum_replicate, smul_eq_mul, mul_one]

/-- The shipped placements come without a prediction, the others with one. -/
theorem placements_split (predict : String → Prediction) : ∃ rest,
    placements lower db refs filters predict now =
      ((getActualShipping db filters now refs.assemblyPipelineId refs.shippingDoneStageId).map fun entry =>
        { bucketKey := revenueForecastShippedBucket db refs entry.2.1, deal := entry.2.1
          source := js "Фактически отгружено", prediction := none
          shippedAt := some entry.2.2 }) ++ rest ∧
    ∀ p ∈ rest, ∃ prediction, p.prediction = some prediction := by
  unfold placements
  dsimp only
  rw [List.append_assoc, List.append_assoc, List.append_assoc]
  refine ⟨_, rfl, fun p hp => ?_⟩
  simp only [List.mem_append, List.mem_map, List.mem_flatMap] at hp
  rcases hp with ⟨deal, -, rfl⟩ | ⟨deal, -, rfl⟩ | ⟨deal, -, rfl⟩ | ⟨pipeline, -, ⟨deal, -, rfl⟩ | ⟨deal, -, rfl⟩⟩
  all_goals exact ⟨_, rfl⟩

theorem summary_count (predict : String → Prediction) :
    (readyReport lower db refs filters predict now).summary.count =
      (placements lower db refs filters predict now).length := by
  obtain ⟨rest, hsplit, hrest⟩ := @placements_split lower db refs filters now predict
  have hdistinct : (JsMap.distinct ((getActualShipping db filters now refs.assemblyPipelineId
      refs.shippingDoneStageId).map Prod.fst)).length =
      (getActualShipping db filters now refs.assemblyPipelineId refs.shippingDoneStageId).length := by
    have hnodup : (((getActualShipping db filters now refs.assemblyPipelineId refs.shippingDoneStageId).map
        Prod.fst |>.map fun id => (id, ())).map Prod.fst).Nodup := by
      rw [List.map_map]
      exact nodup_getActualShipping.map fun _ _ h => h
    rw [JsMap.distinct, JsMap.ofEntries_of_nodup hnodup, List.length_map, List.length_map, List.length_map]
  have hopen : (rest.filterMap fun p => p.prediction.map fun prediction =>
      (p.deal.amount, prediction.probability)).length = rest.length := by
    rw [List.length_filterMap_eq_countP, List.countP_eq_length]
    intro p hp
    obtain ⟨prediction, hprediction⟩ := hrest p hp
    rw [hprediction]
    rfl
  have hclosed : ∀ entries : List (String × FactDeal × ℤ), ((entries.map fun entry =>
      ({ bucketKey := revenueForecastShippedBucket db refs entry.2.1, deal := entry.2.1
         source := js "Фактически отгружено", prediction := none, shippedAt := some entry.2.2 } : Placement)).filterMap
      fun p => p.prediction.map fun prediction => (p.deal.amount, prediction.probability)) = [] := by
    intro entries
    rw [List.filterMap_map, List.filterMap_eq_nil_iff]
    exact fun _ _ => rfl
  unfold readyReport
  dsimp only
  rw [hsplit, hdistinct, List.filterMap_append, hclosed, List.nil_append, hopen, List.length_append, List.length_map]

/-! ## Counting once -/

theorem count_deals (selection : Selection) {deal : FactDeal} (hdeal : deal ∈ db.facts) :
    ((selection.deals db).map fun target => target.1.dealId).count deal.dealId =
      if selection.picks deal then 1 else 0 := by
  have hids : ((selection.deals db).map fun target => target.1.dealId) =
      (db.facts.filter selection.picks).map FactDeal.dealId := by
    rw [Selection.deals, List.map_map]
    rfl
  have hnodup : ((db.facts.filter selection.picks).map FactDeal.dealId).Nodup :=
    (List.filter_sublist.map FactDeal.dealId).nodup db.factKeys
  have hmem : deal.dealId ∈ (db.facts.filter selection.picks).map FactDeal.dealId ↔ selection.picks deal = true := by
    constructor
    · intro h
      obtain ⟨other, hother, hid⟩ := List.mem_map.1 h
      obtain ⟨hfact, hpicks⟩ := List.mem_filter.1 hother
      obtain rfl := fact_eq hfact hdeal hid
      exact hpicks
    · exact fun h => List.mem_map_of_mem (List.mem_filter.2 ⟨hdeal, h⟩)
  rw [hids, hnodup.count]
  simp only [hmem]

/-- The placed ids, one for each placement. -/
def ids (ps : List Placement) : List String := ps.map fun p => p.deal.dealId

theorem perm_ids (predict : String → Prediction) : (ids (placements lower db refs filters predict now)).Perm
    ((selections lower db refs filters now).flatMap fun selection =>
      (selection.deals db).map fun target => target.1.dealId) := by
  have h := (@perm_placements lower db refs filters now predict).map fun target => target.1.dealId
  rw [List.map_map, List.map_flatMap] at h
  exact h

/-- A deal is placed once for each selection that picks it. -/
theorem count_ids (predict : String → Prediction) {deal : FactDeal} (hdeal : deal ∈ db.facts) :
    (ids (placements lower db refs filters predict now)).count deal.dealId =
      ((selections lower db refs filters now).filter fun selection => selection.picks deal).length := by
  rw [(perm_ids predict).count_eq, List.count_flatMap]
  induction selections lower db refs filters now with
  | nil => rfl
  | cons selection rest ih =>
    rw [List.map_cons, List.sum_cons, ih, Function.comp_apply, count_deals selection hdeal]
    cases hpicks : selection.picks deal with
    | true =>
      rw [List.filter_cons_of_pos (by simpa using hpicks), List.length_cons, if_pos rfl]
      omega
    | false =>
      rw [List.filter_cons_of_neg (by simp [hpicks]), if_neg Bool.false_ne_true]
      omega

theorem nodup_ids_iff (predict : String → Prediction) :
    (ids (placements lower db refs filters predict now)).Nodup ↔ ∀ deal ∈ db.facts,
      ((selections lower db refs filters now).filter fun selection => selection.picks deal).length ≤ 1 := by
  rw [List.nodup_iff_count_le_one]
  constructor
  · intro h deal hdeal
    rw [← count_ids predict hdeal]
    exact h _
  · intro h id
    by_cases hid : id ∈ ids (placements lower db refs filters predict now)
    · obtain ⟨selection, -, hmem⟩ := List.mem_flatMap.1 ((perm_ids predict).mem_iff.1 hid)
      obtain ⟨target, htarget, rfl⟩ := List.mem_map.1 hmem
      obtain ⟨deal, hdeal, rfl⟩ := List.mem_map.1 htarget
      have hfact := (List.mem_filter.1 hdeal).1
      exact (count_ids predict hfact).trans_le (h deal hfact)
    · rw [List.count_eq_zero_of_not_mem hid]
      exact Nat.zero_le 1

/-- No placement is hidden when no pick is. -/
theorem shown_iff (predict : String → Prediction) :
    (∀ p ∈ placements lower db refs filters predict now, hides filters.workspace p.bucketKey.side = false) ↔
      ∀ selection ∈ selections lower db refs filters now, ∀ deal ∈ db.facts, selection.picks deal = true →
        hides filters.workspace (selection.side deal) = false := by
  have htarget : (∀ p ∈ placements lower db refs filters predict now,
      hides filters.workspace p.bucketKey.side = false) ↔
      ∀ target ∈ (placements lower db refs filters predict now).map Placement.target,
        hides filters.workspace target.2 = false := by
    rw [List.forall_mem_map]
    rfl
  rw [htarget]
  simp only [(perm_placements predict).mem_iff, List.mem_flatMap]
  constructor
  · intro h selection hselection deal hdeal hpicks
    exact h (deal, selection.side deal)
      ⟨selection, hselection, List.mem_map_of_mem (List.mem_filter.2 ⟨hdeal, hpicks⟩)⟩
  · rintro h target ⟨selection, hselection, hmem⟩
    obtain ⟨deal, hdeal, rfl⟩ := List.mem_map.1 hmem
    obtain ⟨hfact, hpicks⟩ := List.mem_filter.1 hdeal
    exact h selection hselection deal hfact hpicks

/-- The ids of the deals in a bucket. -/
def bucketIds (bs : Buckets) (key : BucketKey) : List String := (bs key).deals.map BucketDeal.dealId

theorem mem_bucketIds (predict : String → Prediction) {key : BucketKey} {id : String} :
    id ∈ bucketIds (buckets lower db refs filters predict now) key ↔
      ∃ p ∈ placements lower db refs filters predict now, p.bucketKey = key ∧ p.deal.dealId = id := by
  rw [bucketIds, buckets_deals, List.map_map, List.mem_map]
  simp only [List.mem_filter, decide_eq_true_eq, and_assoc]
  rfl

/-- The distinct deals of all buckets. -/
def placedIds (bs : Buckets) : Finset String := (BucketKey.all.flatMap (bucketIds bs)).toFinset

theorem placedIds_eq (predict : String → Prediction) : placedIds (buckets lower db refs filters predict now) =
    (ids (placements lower db refs filters predict now)).toFinset := by
  ext id
  rw [placedIds, List.mem_toFinset, List.mem_toFinset, List.mem_flatMap, ids, List.mem_map]
  simp only [mem_bucketIds]
  constructor
  · rintro ⟨key, -, p, hp, -, hid⟩
    exact ⟨p, hp, hid⟩
  · rintro ⟨p, hp, hid⟩
    exact ⟨p.bucketKey, by cases p.bucketKey <;> decide, p, hp, rfl, hid⟩

/-- Each deal is in at most one bucket, and the count of the summary is that of the distinct placed deals and the sum
of the row counts. -/
structure CountedOnce (bs : Buckets) (report : Report) : Prop where
  once : ∀ key key' id, id ∈ bucketIds bs key → id ∈ bucketIds bs key' → key = key'
  placed : report.summary.count = (placedIds bs).card
  rowCounts : report.summary.count = (report.rows.map Row.count).sum

/-- The deals are counted once exactly when no deal is picked by two selections and none is in a row that the
workspace hides. -/
theorem countedOnce_iff (predict : String → Prediction) :
    CountedOnce (buckets lower db refs filters predict now) (readyReport lower db refs filters predict now) ↔
      (∀ deal ∈ db.facts,
        ((selections lower db refs filters now).filter fun selection => selection.picks deal).length ≤ 1) ∧
      ∀ selection ∈ selections lower db refs filters now, ∀ deal ∈ db.facts, selection.picks deal = true →
        hides filters.workspace (selection.side deal) = false := by
  have hlength : (ids (placements lower db refs filters predict now)).length =
      (placements lower db refs filters predict now).length := List.length_map _
  have hplaced : (readyReport lower db refs filters predict now).summary.count =
      (placedIds (buckets lower db refs filters predict now)).card ↔
        (ids (placements lower db refs filters predict now)).Nodup := by
    rw [summary_count, placedIds_eq, ← hlength, List.card_toFinset]
    constructor
    · intro h
      exact List.dedup_eq_self.1 ((List.dedup_sublist _).eq_of_length h.symm)
    · intro h
      rw [h.dedup]
  have hrows : (readyReport lower db refs filters predict now).summary.count =
      ((readyReport lower db refs filters predict now).rows.map Row.count).sum ↔
        ∀ p ∈ placements lower db refs filters predict now, hides filters.workspace p.bucketKey.side = false := by
    rw [summary_count, readyReport, rowCounts, eq_comm, List.length_filter_eq_length_iff]
    simp only [decide_eq_true_eq]
  rw [← nodup_ids_iff predict, ← shown_iff predict, ← hplaced, ← hrows]
  constructor
  · exact fun h => ⟨h.placed, h.rowCounts⟩
  · rintro ⟨hcount, hshown⟩
    refine ⟨fun key key' id hid hid' => ?_, hcount, hshown⟩
    obtain ⟨p, hp, rfl, hdeal⟩ := (mem_bucketIds predict).1 hid
    obtain ⟨p', hp', rfl, hdeal'⟩ := (mem_bucketIds predict).1 hid'
    have hsame := List.inj_on_of_nodup_map (hplaced.1 hcount) hp hp' (hdeal.trans hdeal'.symm)
    rw [hsame]

end Parts

/-- `toLowerCase`, as far as the Latin and Russian letters go. -/
def toLowerCase (s : JsString) : JsString :=
  s.map fun c => if between 'A' 'Z' c || between 'А' 'Я' c then c + 0x20 else if c = 0x401 then 0x451 else c

def offerDeal : FactDeal :=
  ⟨"deal", js "Server", "sales", "offer", js "Счёт и КП отправлены", false, false, 100, 0, none⟩

/-- The stage of the sales pipeline has the parts of an invoice and of a quote in its name. -/
def invoiceWithQuote : Database where
  pipelines :=
    [⟨"sales", js "Воронка Продажи", [⟨"offer", js "Счёт и КП отправлены", false, false, 10⟩,
      ⟨"won", js "Успешно", true, false, 20⟩]⟩,
    ⟨"assembly", js "Воронка Сборка", [⟨"paid", js "PAID!", false, false, 10⟩,
      ⟨"transit", js "Items in transit", false, false, 50⟩, ⟨"shipped", js "Отгружено", true, false, 60⟩]⟩,
    ⟨"base", js "База", [⟨"invoice", js "Счёт отправлен", false, false, 10⟩,
      ⟨"quote", js "КП отправлено", false, false, 20⟩, ⟨"bought", js "Успешно", true, false, 30⟩]⟩,
    ⟨"assigned", js "Закрепленные Компании", [⟨"bill", js "Счёт отправлен", false, false, 10⟩,
      ⟨"proposal", js "КП отправлено", false, false, 20⟩, ⟨"sold", js "Успешно", true, false, 30⟩]⟩]
  groups := [⟨"csm", js "CSM"⟩]
  facts := [offerDeal]
  transitions := []
  transferred := []
  responsible := fun _ => ⟨some "manager", none⟩
  factKeys := by decide

def allDeals : ReportFilters := ⟨[], none, fun _ _ => true⟩

def likely (_ : String) : Prediction := ⟨1, 100, none, none⟩

/-- The forecast is ready, with the same stage for invoices and for quotes. -/
theorem invoiceWithQuote_ready : ∃ refs, (resolveRevenueForecastRefs toLowerCase invoiceWithQuote.pipelines
    invoiceWithQuote.groups).settled = some refs ∧
      (refs.salesPipelineId, refs.invoiceStageId, refs.quoteStageIds) = ("sales", "offer", ["offer"]) ∧
      computeRevenueProfitForecast toLowerCase invoiceWithQuote allDeals likely 0 =
        .ready (readyReport toLowerCase invoiceWithQuote refs allDeals likely 0) := by
  have hstages : ((resolveRevenueForecastRefs toLowerCase invoiceWithQuote.pipelines
      invoiceWithQuote.groups).settled.map fun refs =>
        (refs.salesPipelineId, refs.invoiceStageId, refs.quoteStageIds)) = some ("sales", "offer", ["offer"]) := by decide
  have hwarnings : (resolveRevenueForecastRefs toLowerCase invoiceWithQuote.pipelines
      invoiceWithQuote.groups).warnings = [] := by decide
  obtain ⟨refs, hsettled, hrefs⟩ := Option.map_eq_some_iff.1 hstages
  refine ⟨refs, hsettled, hrefs, ?_⟩
  unfold computeRevenueProfitForecast
  dsimp only
  rw [if_neg fun h => h hwarnings, hsettled]

end AmoAnalytics.Reports.RevenueForecast
