import AmoAnalytics.Facts.FactMarts

/-!
# Incremental and full refresh

The select of a mart for some deals gives the rows that the select for all deals gives for them: every join keeps the
deal, and the windows over the history work on one deal at a time. So a refresh of some deals leaves for them what a
full refresh leaves, and the rows of the other deals as they were.
-/

namespace AmoAnalytics.Facts

open Select

/-! ## Selecting some deals -/

/-- Selecting some deals is selecting all of them and keeping the rows of those deals. -/
def Restricts {ρ : Type} (dealId : ρ → String) (select : (String → Bool) → List ρ) : Prop :=
  ∀ selected, select selected = (select fun _ => true).filter fun row => selected (dealId row)

namespace Sources

variable {src : Sources} {now : ℤ} {md5 : String → String}

/-- A select that starts from the rows of the deals. -/
theorem restricts_flatMap {α ρ : Type} {dealId : ρ → String} {key : α → String} {rows : List α} {f : α → List ρ}
    (h : ∀ a, ∀ b ∈ f a, dealId b = key a) :
    Restricts dealId fun selected => (rows.filter fun row => selected (key row)).flatMap f := by
  intro selected
  dsimp only
  rw [List.filter_true]
  exact flatMap_filter fun a _ b hb => congrArg selected (h a b hb)

theorem dealCurrent_restricts : Restricts (·.dealId) (src.selectDealCurrent now) := by
  refine restricts_flatMap fun deal row hrow => ?_
  simp only [dealCurrentOf, List.mem_flatMap, List.mem_map] at hrow
  obtain ⟨_, _, _, _, _, _, _, _, _, _, rfl⟩ := hrow
  rfl

theorem mem_deal {id : String} {deal : Deal} (h : deal ∈ src.deal id) : deal.id = id :=
  of_decide_eq_true (List.mem_filter.1 h).2

theorem stageTransitions_restricts : Restricts (·.dealId) (src.selectStageTransitions now) := by
  refine restricts_flatMap fun history row hrow => ?_
  simp only [stageTransitionOf, List.mem_flatMap, List.mem_map] at hrow
  obtain ⟨deal, hdeal, _, _, _, _, _, _, _, _, rfl⟩ := hrow
  exact mem_deal hdeal

theorem emailThreads_restricts : Restricts (·.dealId) (src.selectEmailThreads now) := by
  refine restricts_flatMap fun state row hrow => ?_
  simp only [emailThreadOf, List.mem_flatMap, List.mem_map] at hrow
  obtain ⟨deal, hdeal, _, _, _, _, _, _, _, _, rfl⟩ := hrow
  exact mem_deal hdeal

/-! ## The intervals of some deals -/

theorem selectedDeals_restricts : Restricts (·.id) src.selectedDeals := by
  intro selected
  unfold selectedDeals
  rw [List.filter_true]

theorem selectedDeals_filter {selected : String → Bool} {id : String} (h : selected id = true) :
    (src.selectedDeals selected).filter (·.id = id) = (src.selectedDeals fun _ => true).filter (·.id = id) := by
  unfold selectedDeals
  rw [List.filter_filter, List.filter_true]
  refine List.filter_congr fun deal _ => ?_
  by_cases hid : deal.id = id
  · rw [hid, h, Bool.and_true]
  · simp [hid]

theorem mem_numbered {n : ℕ} {rows : List DealStageHistory} {ordered : Ordered} (h : ordered ∈ numbered n rows) :
    ordered.row ∈ rows := by
  induction rows generalizing n with
  | nil => exact absurd h List.not_mem_nil
  | cons row rows ih =>
    rcases List.mem_cons.1 h with rfl | h
    · exact List.mem_cons_self
    · exact List.mem_cons_of_mem _ (ih h)

theorem orderedHistory_restricts : Restricts (·.row.dealId) src.orderedHistory := by
  intro selected
  have hjoined : (src.history.flatMap fun history =>
        ((src.selectedDeals selected).filter (·.id = history.dealId)).map fun _ => history) =
      (src.history.flatMap fun history =>
        ((src.selectedDeals fun _ => true).filter (·.id = history.dealId)).map fun _ => history).filter
          fun history => selected history.dealId := by
    rw [List.filter_flatMap]
    refine List.flatMap_congr fun history _ => ?_
    rw [List.filter_map]
    cases hselected : selected history.dealId with
    | true =>
      have hall (deals : List Deal) :
          deals.filter ((fun history => selected history.dealId) ∘ fun _ => history) = deals :=
        List.filter_eq_self.2 fun _ _ => hselected
      rw [hall, selectedDeals_filter hselected]
    | false =>
      have hnone (deals : List Deal) :
          deals.filter ((fun history => selected history.dealId) ∘ fun _ => history) = [] :=
        List.filter_eq_nil_iff.2 fun _ _ => by simp [hselected]
      have hunselected : (src.selectedDeals selected).filter (·.id = history.dealId) = [] := by
        refine List.filter_eq_nil_iff.2 fun deal hdeal hid => ?_
        have hdealSelected := (List.mem_filter.1 hdeal).2
        rw [of_decide_eq_true hid, hselected] at hdealSelected
        exact Bool.false_ne_true hdealSelected
      rw [hnone, hunselected]
  unfold orderedHistory
  rw [hjoined]
  refine overPartition_filter (fun k ordered hordered => ?_) selected
  have hrow := List.mem_mergeSort.1 (mem_numbered hordered)
  exact of_decide_eq_true (List.mem_filter.1 hrow).2

theorem orderedHistory_filter {selected : String → Bool} {id : String} (h : selected id = true) (p : Ordered → Bool) :
    ((src.orderedHistory selected).filter fun ordered => p ordered && ordered.row.dealId = id) =
      (src.orderedHistory fun _ => true).filter fun ordered => p ordered && ordered.row.dealId = id := by
  rw [orderedHistory_restricts, List.filter_filter]
  refine List.filter_congr fun ordered _ => ?_
  by_cases hid : ordered.row.dealId = id
  · simp [hid, h]
  · simp [hid]

theorem initialIntervals_restricts : Restricts (·.dealId) (src.initialIntervals md5) := by
  intro selected
  unfold initialIntervals
  rw [← flatMap_filter (p := fun deal : Deal => selected deal.id), ← selectedDeals_restricts]
  · refine List.flatMap_congr fun deal hdeal => ?_
    rw [orderedHistory_filter (List.mem_filter.1 hdeal).2]
  · intro deal _ interval hinterval
    obtain ⟨first, -, hfirst⟩ := List.mem_filterMap.1 hinterval
    split_ifs at hfirst
    rw [← Option.some.inj hfirst]

theorem movedIntervals_restricts : Restricts (·.dealId) src.movedIntervals := by
  intro selected
  unfold movedIntervals
  rw [orderedHistory_restricts, List.filter_map]
  rfl

theorem currentIntervals_restricts : Restricts (·.dealId) (src.currentIntervals md5) := by
  intro selected
  unfold currentIntervals
  rw [List.filter_map, List.filter_filter, selectedDeals_restricts, List.filter_filter]
  congr 1
  refine List.filter_congr fun deal _ => ?_
  cases hdeal : selected deal.id with
  | false => simp [hdeal]
  | true =>
    have hany : ((src.orderedHistory selected).any fun ordered => ordered.row.dealId = deal.id) =
        (src.orderedHistory fun _ => true).any fun ordered => ordered.row.dealId = deal.id := by
      have hsame : ((src.orderedHistory selected).filter fun ordered => true && ordered.row.dealId = deal.id) = _ :=
        orderedHistory_filter hdeal fun _ => true
      rw [Bool.eq_iff_iff, List.any_eq_true, List.any_eq_true]
      simp only [Bool.true_and] at hsame
      constructor
      · rintro ⟨ordered, hordered, hid⟩
        have hmem := hsame ▸ List.mem_filter.2 ⟨hordered, hid⟩
        exact ⟨ordered, (List.mem_filter.1 hmem).1, hid⟩
      · rintro ⟨ordered, hordered, hid⟩
        have hmem := hsame.symm ▸ List.mem_filter.2 ⟨hordered, hid⟩
        exact ⟨ordered, (List.mem_filter.1 hmem).1, hid⟩
    simp [hany, hdeal]

theorem intervals_restricts : Restricts (·.dealId) (src.intervals md5) := by
  intro selected
  unfold intervals
  rw [initialIntervals_restricts, movedIntervals_restricts, currentIntervals_restricts, List.filter_append,
    List.filter_append]

theorem stageIntervals_restricts : Restricts (·.dealId) (src.selectStageIntervals now md5) := by
  intro selected
  unfold selectStageIntervals
  rw [← flatMap_filter (p := fun interval : Interval => selected interval.dealId), ← intervals_restricts]
  · refine List.flatMap_congr fun interval hinterval => ?_
    rw [intervals_restricts] at hinterval
    unfold stageIntervalOf
    rw [selectedDeals_filter (List.mem_filter.1 hinterval).2]
  · intro interval _ row hrow
    simp only [stageIntervalOf, List.mem_flatMap, List.mem_map] at hrow
    obtain ⟨deal, hdeal, _, _, _, _, _, _, rfl⟩ := hrow
    exact congrArg selected (of_decide_eq_true (List.mem_filter.1 hdeal).2)

end Sources

/-! ## One mart -/

section Mart

variable {ρ : Type} {ok : List ρ → Prop} [DecidablePred ok] {dealId : ρ → String} {select : (String → Bool) → List ρ}
  {ids : List String} {mart after : Mart ok}

/-- The rows of the mart after a refresh: those of the other deals and the full select's of the given ones. -/
theorem refreshMart_eq (hselect : Restricts dealId select) :
    refreshMart dealId select ids mart =
      let rows := (mart.1.filter fun row => !selects ids (dealId row)) ++
        (select fun _ => true).filter fun row => selects ids (dealId row)
      if h : ok rows then some ⟨rows, h⟩ else none := by
  unfold refreshMart
  rw [hselect]

theorem refreshMart_some (hselect : Restricts dealId select) (h : refreshMart dealId select ids mart = some after) :
    after.1 = (mart.1.filter fun row => !selects ids (dealId row)) ++
      (select fun _ => true).filter fun row => selects ids (dealId row) := by
  rw [refreshMart_eq hselect] at h
  dsimp only at h
  split_ifs at h
  rw [← Option.some.inj h]

theorem refreshMart_none (hselect : Restricts dealId select) (h : refreshMart dealId select ids mart = none) :
    ¬ok ((mart.1.filter fun row => !selects ids (dealId row)) ++
      (select fun _ => true).filter fun row => selects ids (dealId row)) := by
  rw [refreshMart_eq hselect] at h
  dsimp only at h
  split_ifs at h with hok
  exact hok

end Mart

/-! ## All marts -/

/-- The rows of the marts, of which the constraints are not known. -/
structure Rows where
  dealCurrent : List FactDealCurrent
  stageTransitions : List FactStageTransition
  stageIntervals : List FactDealStageInterval
  emailThreads : List FactEmailThreadState

namespace Rows

def Ok (rows : Rows) : Prop :=
  DealCurrentOk rows.dealCurrent ∧ StageTransitionOk rows.stageTransitions ∧ StageIntervalOk rows.stageIntervals ∧
    EmailThreadOk rows.emailThreads

/-- The rows of the deals that are kept. -/
def pick (keep : String → Bool) (rows : Rows) : Rows where
  dealCurrent := rows.dealCurrent.filter fun row => keep row.dealId
  stageTransitions := rows.stageTransitions.filter fun row => keep row.dealId
  stageIntervals := rows.stageIntervals.filter fun row => keep row.dealId
  emailThreads := rows.emailThreads.filter fun row => keep row.dealId

def append (a b : Rows) : Rows where
  dealCurrent := a.dealCurrent ++ b.dealCurrent
  stageTransitions := a.stageTransitions ++ b.stageTransitions
  stageIntervals := a.stageIntervals ++ b.stageIntervals
  emailThreads := a.emailThreads ++ b.emailThreads

theorem filter_disjoint {ρ : Type} {p q : ρ → Bool} (h : ∀ row, q row = true → p row = false) (rows : List ρ) :
    (rows.filter q).filter p = [] := by
  refine List.filter_eq_nil_iff.2 fun row hrow hp => ?_
  rw [h row (List.mem_filter.1 hrow).2] at hp
  exact Bool.false_ne_true hp

theorem filter_same {ρ : Type} (p : ρ → Bool) (rows : List ρ) : (rows.filter p).filter p = rows.filter p :=
  List.filter_eq_self.2 fun _ hrow => (List.mem_filter.1 hrow).2

/-- Of the rows of the deals not kept in `a` and those kept in `b`, the kept ones are `b`'s. -/
theorem pick_append (keep : String → Bool) (a b : Rows) :
    ((a.pick fun id => !keep id).append (b.pick keep)).pick keep = b.pick keep := by
  simp only [pick, append, List.filter_append, filter_same]
  congr 1 <;> rw [filter_disjoint (by simp), List.nil_append]

theorem pick_not_append (keep : String → Bool) (a b : Rows) :
    ((a.pick fun id => !keep id).append (b.pick keep)).pick (fun id => !keep id) = a.pick fun id => !keep id := by
  simp only [pick, append, List.filter_append, filter_same]
  congr 1 <;> rw [filter_disjoint (by simp), List.append_nil]

theorem pick_all (rows : Rows) : rows.pick (fun _ => true) = rows := by
  simp only [pick, List.filter_true]

theorem pick_none_append (a b : Rows) : (a.pick fun _ => !true).append b = b := by
  simp only [pick, append, Bool.not_true, List.filter_false, List.nil_append]

end Rows

def Marts.rows (marts : Marts) : Rows where
  dealCurrent := marts.dealCurrent.1
  stageTransitions := marts.stageTransitions.1
  stageIntervals := marts.stageIntervals.1
  emailThreads := marts.emailThreads.1

variable {src : Sources} {now : ℤ} {md5 : String → String}

/-- The rows that the selects give for all deals. -/
def fullRows (src : Sources) (now : ℤ) (md5 : String → String) : Rows where
  dealCurrent := src.selectDealCurrent now fun _ => true
  stageTransitions := src.selectStageTransitions now fun _ => true
  stageIntervals := src.selectStageIntervals now md5 fun _ => true
  emailThreads := src.selectEmailThreads now fun _ => true

/-- The rows after a refresh of some deals: the others' as they were, and the full ones of the given deals. -/
def refreshedRows (src : Sources) (now : ℤ) (md5 : String → String) (ids : List String) (rows : Rows) : Rows :=
  (rows.pick fun id => !selects ids id).append ((fullRows src now md5).pick (selects ids))

theorem refreshFacts_some {ids : List String} {marts after : Marts}
    (h : refreshFacts src now md5 ids marts = some after) :
    after.rows = refreshedRows src now md5 (normalizedIds ids) marts.rows := by
  simp only [refreshFacts, Option.bind_eq_some_iff, Option.map_eq_some_iff] at h
  obtain ⟨dealCurrent, hdealCurrent, stageTransitions, hstageTransitions, stageIntervals, hstageIntervals,
    emailThreads, hemailThreads, rfl⟩ := h
  simp only [Marts.rows, refreshMart_some Sources.dealCurrent_restricts hdealCurrent,
    refreshMart_some Sources.stageTransitions_restricts hstageTransitions,
    refreshMart_some Sources.stageIntervals_restricts hstageIntervals,
    refreshMart_some Sources.emailThreads_restricts hemailThreads]
  rfl

theorem refreshFacts_none {ids : List String} {marts : Marts} (h : refreshFacts src now md5 ids marts = none) :
    ¬(refreshedRows src now md5 (normalizedIds ids) marts.rows).Ok := by
  rintro ⟨hdealCurrent, hstageTransitions, hstageIntervals, hemailThreads⟩
  cases h1 : refreshFactDealCurrent src now ids marts.dealCurrent with
  | none => exact refreshMart_none Sources.dealCurrent_restricts h1 hdealCurrent
  | some dealCurrent =>
  cases h2 : refreshFactStageTransitions src now ids marts.stageTransitions with
  | none => exact refreshMart_none Sources.stageTransitions_restricts h2 hstageTransitions
  | some stageTransitions =>
  cases h3 : refreshFactStageIntervals src now md5 ids marts.stageIntervals with
  | none => exact refreshMart_none Sources.stageIntervals_restricts h3 hstageIntervals
  | some stageIntervals =>
  cases h4 : refreshEmailThreadFacts src now ids marts.emailThreads with
  | none => exact refreshMart_none Sources.emailThreads_restricts h4 hemailThreads
  | some emailThreads => simp [refreshFacts, h1, h2, h3, h4] at h

/-- A full refresh leaves the rows of the selects, whatever was there. -/
theorem refreshAll_rows {marts after : Marts} (h : refreshAll src now md5 marts = some after) :
    after.rows = fullRows src now md5 := by
  have hselects : selects (normalizedIds []) = fun _ => true := rfl
  rw [refreshFacts_some h, refreshedRows, hselects, Rows.pick_all, Rows.pick_none_append]

/-! ## A refresh of some deals -/

theorem normalizedIds_idem (dealIds : List String) (id : String) :
    id ∈ normalizedIds (normalizedIds dealIds) ↔ id ∈ normalizedIds dealIds := by
  simp only [normalizedIds, JsMap.mem_distinct, List.mem_filter]
  tauto

theorem selects_normalized {dealIds : List String} (h : normalizedIds dealIds ≠ []) :
    selects (normalizedIds (normalizedIds dealIds)) = fun id => (normalizedIds dealIds).contains id := by
  obtain ⟨id, hid⟩ := List.exists_mem_of_ne_nil _ h
  have hne : normalizedIds (normalizedIds dealIds) ≠ [] :=
    List.ne_nil_of_mem ((normalizedIds_idem dealIds id).2 hid)
  funext id
  rw [selects, if_neg hne, Bool.eq_iff_iff, List.contains_iff_mem, List.contains_iff_mem, normalizedIds_idem]

/-- Up to the limit the given deals have the rows of a full refresh and all other rows stay, or a constraint of the
marts does not hold for that and nothing changes. -/
theorem incremental_refresh (src : Sources) (now : ℤ) (md5 : String → String) (dealIds : List String) (marts : Marts)
    (hids : normalizedIds dealIds ≠ []) (hmax : (normalizedIds dealIds).length ≤ maxIncrementalFactDeals) :
    let given := fun id => (normalizedIds dealIds).contains id
    let others := fun id => !given id
    (∀ start full, refreshAll src now md5 start = some full → full.rows = fullRows src now md5) ∧
      (∀ after, refreshDeals src now md5 dealIds marts = some after →
        after.rows.pick given = (fullRows src now md5).pick given ∧ after.rows.pick others = marts.rows.pick others) ∧
      (refreshDeals src now md5 dealIds marts = none →
        ¬((marts.rows.pick others).append ((fullRows src now md5).pick given)).Ok) := by
  intro given others
  have hrefresh : refreshDeals src now md5 dealIds marts =
      refreshFacts src now md5 (normalizedIds dealIds) marts := by
    simp only [refreshDeals]
    rw [if_neg (mt List.length_eq_zero_iff.1 hids), if_neg (Nat.not_lt.2 hmax)]
  have hrows : refreshedRows src now md5 (normalizedIds (normalizedIds dealIds)) marts.rows =
      (marts.rows.pick others).append ((fullRows src now md5).pick given) := by
    rw [refreshedRows, selects_normalized hids]
  refine ⟨fun start full => refreshAll_rows, fun after h => ?_, fun h => ?_⟩
  · rw [hrefresh] at h
    rw [refreshFacts_some h, hrows]
    exact ⟨Rows.pick_append given _ _, Rows.pick_not_append given _ _⟩
  · rw [hrefresh] at h
    exact hrows ▸ refreshFacts_none h

def noMarts : Marts := ⟨⟨[], by decide⟩, ⟨[], by decide⟩, ⟨[], by decide⟩, ⟨[], by decide⟩⟩

def sampleDeal (id : String) : Deal where
  id := id
  externalId := id
  pipelineId := "p"
  stageId := "s"
  title := id
  currency := "EUR"
  createdAt := 0
  updatedAt := 0

def sampleSources : Sources where
  deals := [sampleDeal "d", sampleDeal "e"]
  pipelines := [⟨"p", "Sales"⟩]
  stages := [⟨"s", "p", "New", 1, none, false, false⟩]
  history := [⟨"h", "d", none, "s", 5, none, "API"⟩]

theorem incremental_refresh_sample :
    (refreshDeals sampleSources 9 id ["d"] noMarts).isSome = true ∧
      ∀ after, refreshDeals sampleSources 9 id ["d"] noMarts = some after →
        after.rows.pick (["d"].contains ·) = (fullRows sampleSources 9 id).pick (["d"].contains ·) :=
  ⟨by decide +kernel, fun after h =>
    ((incremental_refresh sampleSources 9 id ["d"] noMarts (by decide) (by decide)).2.1 after h).1⟩

/-! ## A refresh of many deals -/

theorem normalizedIds_length {dealIds : List String} (hnodup : dealIds.Nodup) (hne : "" ∉ dealIds) :
    (normalizedIds dealIds).length = dealIds.length := by
  have hfilter : (dealIds.filter (· ≠ "")) = dealIds :=
    List.filter_eq_self.2 fun id hid => decide_eq_true fun h => hne (h ▸ hid)
  have hperm : (normalizedIds dealIds).Perm dealIds := by
    refine (List.perm_ext_iff_of_nodup (JsMap.nodup_keys_ofEntries _) hnodup).2 fun id => ?_
    rw [hfilter]
    exact JsMap.mem_distinct
  exact hperm.length_eq

def manyIds : List String := (List.range 10_001).map fun n => String.ofList (List.replicate (n + 1) 'd')

/-- The marts with the row of a deal that is not among the given ones, from before its title changed. -/
def staleMarts : Marts where
  dealCurrent := ⟨[{
    pipelineId := "p", pipelineName := "Sales", stageId := "s", stageName := "New", stageIsWon := false,
    stageIsLost := false, responsibleId := none, responsibleName := none, groupId := none, groupName := none,
    contactId := none, contactExternalId := none, contactName := none, contactEmail := none, dealId := "e",
    dealExternalId := "e", stagePosition := 1, stageColor := none, responsibleExternalId := none,
    lossReasonId := none, lossReasonName := none, title := "old", amount := 0, currency := "EUR", source := none, tags := [],
    customFields := "", closedAt := none, expectedCloseAt := none, createdAt := 0, updatedAt := 0, deletedAt := none,
    factUpdatedAt := 0 }], by decide⟩
  stageTransitions := ⟨[], by decide⟩
  stageIntervals := ⟨[], by decide⟩
  emailThreads := ⟨[], by decide⟩

def titlesOf (dealId : String) (marts : Marts) : List String :=
  (marts.dealCurrent.1.filter (·.dealId = dealId)).map (·.title)

/-- The refresh of 10 001 deals replaces the row of another deal. -/
theorem many_deals_refresh :
    normalizedIds manyIds ≠ [] ∧ "e" ∉ manyIds ∧ titlesOf "e" staleMarts = ["old"] ∧
      (refreshDeals sampleSources 9 id manyIds staleMarts).map (titlesOf "e") = some ["e"] := by
  have hinjective : Function.Injective fun n => String.ofList (List.replicate (n + 1) 'd') := by
    intro m n h
    have hlist := congrArg (fun s => s.toList.length) h
    simpa using hlist
  have hnodup : manyIds.Nodup := List.nodup_range.map hinjective
  have hmem {id : String} (h : id ∈ manyIds) : ∃ n, String.ofList (List.replicate (n + 1) 'd') = id :=
    (List.mem_map.1 h).imp fun _ hn => hn.2
  have hempty : "" ∉ manyIds := fun h => by
    obtain ⟨n, hn⟩ := hmem h
    have hlist := congrArg String.toList hn
    simp [List.replicate_succ] at hlist
  have hother : "e" ∉ manyIds := fun h => by
    obtain ⟨n, hn⟩ := hmem h
    have hlist := congrArg String.toList hn
    simp [List.replicate_succ] at hlist
  have hlength : (normalizedIds manyIds).length = 10_001 := by
    rw [normalizedIds_length hnodup hempty, manyIds, List.length_map, List.length_range]
  have hne : normalizedIds manyIds ≠ [] := fun h => by
    rw [h] at hlength
    exact absurd hlength (by decide)
  refine ⟨hne, hother, by decide +kernel, ?_⟩
  have hrefresh : refreshDeals sampleSources 9 id manyIds staleMarts =
      refreshAll sampleSources 9 id staleMarts := by
    simp only [refreshDeals, hlength]
    rfl
  rw [hrefresh]
  decide +kernel

end AmoAnalytics.Facts
