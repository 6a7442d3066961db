import AmoAnalytics.Lib.Collected
import AmoAnalytics.Lib.FirstLeast
import AmoAnalytics.Workspaces.CommercialLinks

/-!
# Shipments of a period

The performance page, the workspace plans and the reports each read the deals of the assembly pipeline that entered the
shipment stage within a period. All three restrict to the period first, so a deal that enters the stage again counts in
every period with an entry of it, once in each (`shipments_of_periods`).
-/

namespace AmoAnalytics.Workspaces.Shipments

/-! ## Tables -/

/-- `fact_deal_current`, with the columns the services read. -/
structure FactDeal where
  dealId : String
  pipelineId : String
  deletedAt : Option ℤ
  amount : ℚ
deriving DecidableEq

/-- `fact_stage_transition`; its pipeline is the one of the stage entered. -/
structure StageTransition where
  dealId : String
  pipelineId : String
  toStageId : String
  movedAt : ℤ

/-- `CommercialShipmentLink`. -/
structure ShipmentLink where
  shipmentDealId : String
  status : LinkStatus
  departmentKey : Option String
  managerId : Option String

structure Tables where
  deals : List FactDeal
  transitions : List StageTransition
  links : List ShipmentLink
  dealKeys : (deals.map FactDeal.dealId).Nodup
  linkKeys : (links.map ShipmentLink.shipmentDealId).Nodup

/-- The assembly pipeline and its shipment stage. -/
structure ShippingRefs where
  assemblyPipelineId : String
  shippingStageId : String

/-- From `start` on and before `finish`. -/
structure Period where
  start : ℤ
  finish : ℤ
deriving DecidableEq

def Period.has (period : Period) (t : ℤ) : Prop := period.start ≤ t ∧ t < period.finish

instance (period : Period) (t : ℤ) : Decidable (period.has t) := inferInstanceAs (Decidable (_ ∧ _))

section Functions

variable (tables : Tables) (refs : ShippingRefs)

/-! ## `performance.service.ts` -/

structure ShipmentRow where
  dealId : String
  actorId : Option String
  amount : ℚ
  occurredAt : ℤ
deriving DecidableEq

/-- The rows of a deal and its link; both have their own keys, so each is a group of its own. -/
def performanceRow (departmentKey : String) (period : Period) (fact : FactDeal) (link : ShipmentLink) :
    Option ShipmentRow :=
  if fact.pipelineId = refs.assemblyPipelineId ∧ fact.deletedAt = none ∧ link.shipmentDealId = fact.dealId ∧
      link.status = .confirmed ∧ link.departmentKey = some departmentKey then
    let moments := (tables.transitions.filter fun transition => transition.dealId = fact.dealId ∧
      transition.toStageId = refs.shippingStageId ∧ period.has transition.movedAt).map StageTransition.movedAt
    moments.min?.map fun occurredAt => ⟨fact.dealId, link.managerId, fact.amount, occurredAt⟩
  else none

def performanceShipments (departmentKey : String) (period : Period) : List ShipmentRow :=
  tables.deals.flatMap fun fact => tables.links.filterMap (performanceRow tables refs departmentKey period fact)

/-! ## `workspaces.service.ts` -/

def planAssembly (departmentKey : String) (managers : List String) : List FactDeal :=
  let linked := (tables.links.filter fun link => link.status = .confirmed ∧ link.departmentKey = some departmentKey ∧
    ∃ managerId ∈ managers, link.managerId = some managerId).map ShipmentLink.shipmentDealId
  tables.deals.filter fun deal =>
    deal.pipelineId = refs.assemblyPipelineId ∧ deal.deletedAt = none ∧ deal.dealId ∈ linked

/-- The assembly deals in `shippedIds`; the month ends one millisecond before the next begins. -/
def planShipments (departmentKey : String) (managers : List String) (month : Period) : List FactDeal :=
  let assembly := planAssembly tables refs departmentKey managers
  let shippedIds := (tables.transitions.filter fun transition => transition.dealId ∈ assembly.map FactDeal.dealId ∧
    transition.toStageId = refs.shippingStageId ∧ month.start ≤ transition.movedAt ∧
      transition.movedAt ≤ month.finish - 1).map StageTransition.dealId
  assembly.filter fun deal => deal.dealId ∈ shippedIds

/-! ## `reports.service.ts` -/

/-- `ORDER BY deal_id, moved_at`. -/
def byDealAndTime (a b : StageTransition) : Prop := toLex (a.dealId, a.movedAt) ≤ toLex (b.dealId, b.movedAt)

instance : DecidableRel byDealAndTime := fun _ _ => inferInstanceAs (Decidable (_ ≤ _))

def shippingEntries (period : Period) : List StageTransition :=
  (tables.transitions.filter fun entry => entry.toStageId = refs.shippingStageId ∧
    entry.pipelineId = refs.assemblyPipelineId ∧ period.start ≤ entry.movedAt ∧
      entry.movedAt ≤ period.finish - 1).insertionSort byDealAndTime

/-- `matches_` stands for the report's other filters on a deal. -/
def shippingDeals (matches_ : FactDeal → Bool) (period : Period) : List FactDeal :=
  tables.deals.filter fun deal => deal.deletedAt = none ∧ deal.pipelineId = refs.assemblyPipelineId ∧
    deal.dealId ∈ (shippingEntries tables refs period).map StageTransition.dealId ∧ matches_ deal

/-- The entries of the deals that are found in `dealsById`. -/
def shippedDeals (matches_ : FactDeal → Bool) (period : Period) : List (FactDeal × ℤ) :=
  let dealsById := JsMap.ofEntries ((shippingDeals tables refs matches_ period).map fun deal => (deal.dealId, deal))
  (shippingEntries tables refs period).filterMap fun entry =>
    (JsMap.get? entry.dealId dealsById).map fun deal => (deal, entry.movedAt)

/-- `firstEntryByDeal`: an entry is set only when the map has none of its deal. -/
def getActualShipping (matches_ : FactDeal → Bool) (period : Period) : List (String × FactDeal × ℤ) :=
  JsMap.collect (fun entry => entry.1.dealId) (fun first entry => first.getD entry)
    (shippedDeals tables refs matches_ period) []

end Functions

/-! ## Entries of a deal -/

/-- An entry of the deal into the shipment stage within the period. -/
def Enters (tables : Tables) (refs : ShippingRefs) (fact : FactDeal) (period : Period) (t : ℤ) : Prop :=
  ∃ transition ∈ tables.transitions, transition.dealId = fact.dealId ∧ transition.toStageId = refs.shippingStageId ∧
    transition.movedAt = t ∧ period.has t

/-- The first of them. -/
def EntersFirst (tables : Tables) (refs : ShippingRefs) (fact : FactDeal) (period : Period) (t : ℤ) : Prop :=
  Enters tables refs fact period t ∧ ∀ t', Enters tables refs fact period t' → t ≤ t'

/-- The shipment stage is one of the assembly pipeline. -/
def StageInPipeline (tables : Tables) (refs : ShippingRefs) : Prop :=
  ∀ transition ∈ tables.transitions, transition.toStageId = refs.shippingStageId →
    transition.pipelineId = refs.assemblyPipelineId

/-- An assembly deal that is not marked deleted. -/
def Live (refs : ShippingRefs) (fact : FactDeal) : Prop :=
  fact.pipelineId = refs.assemblyPipelineId ∧ fact.deletedAt = none

section Entries

variable {tables : Tables} {refs : ShippingRefs} {period : Period}

theorem EntersFirst.unique {fact : FactDeal} {t t' : ℤ} (h : EntersFirst tables refs fact period t)
    (h' : EntersFirst tables refs fact period t') : t = t' :=
  le_antisymm (h.2 t' h'.1) (h'.2 t h.1)

theorem Enters.first {fact : FactDeal} {t : ℤ} (h : Enters tables refs fact period t) :
    ∃ t, EntersFirst tables refs fact period t := by
  obtain ⟨first, hfirst, hleast⟩ := Int.exists_least_of_bdd (P := Enters tables refs fact period)
    ⟨period.start, fun z hz => hz.choose_spec.2.2.2.2.1⟩ ⟨t, h⟩
  exact ⟨first, hfirst, hleast⟩

/-! ## Rows of the performance page -/

theorem performanceRow_eq_some {departmentKey : String} {fact : FactDeal} {link : ShipmentLink} {row : ShipmentRow} :
    performanceRow tables refs departmentKey period fact link = some row ↔
      (Live refs fact ∧ link.shipmentDealId = fact.dealId ∧ link.status = .confirmed ∧
        link.departmentKey = some departmentKey) ∧ EntersFirst tables refs fact period row.occurredAt ∧
      row = ⟨fact.dealId, link.managerId, fact.amount, row.occurredAt⟩ := by
  unfold performanceRow
  dsimp only
  set moments := (tables.transitions.filter fun transition => transition.dealId = fact.dealId ∧
    transition.toStageId = refs.shippingStageId ∧ period.has transition.movedAt).map StageTransition.movedAt
  have hmem : ∀ t, t ∈ moments ↔ Enters tables refs fact period t := by
    intro t
    simp only [moments, List.mem_map, List.mem_filter, decide_eq_true_eq]
    constructor
    · rintro ⟨transition, ⟨htransition, hdeal, hstage, hperiod⟩, rfl⟩
      exact ⟨transition, htransition, hdeal, hstage, rfl, hperiod⟩
    · rintro ⟨transition, htransition, hdeal, hstage, rfl, hperiod⟩
      exact ⟨transition, ⟨htransition, hdeal, hstage, hperiod⟩, rfl⟩
  have hmin : ∀ t, moments.min? = some t ↔ EntersFirst tables refs fact period t := by
    intro t
    rw [List.min?_eq_some_iff, hmem]
    exact and_congr_right fun _ => ⟨fun h t' ht' => h t' ((hmem t').2 ht'), fun h t' ht' => h t' ((hmem t').1 ht')⟩
  split_ifs with hcond
  · rw [Option.map_eq_some_iff]
    constructor
    · rintro ⟨t, ht, rfl⟩
      exact ⟨⟨⟨hcond.1, hcond.2.1⟩, hcond.2.2⟩, (hmin t).1 ht, rfl⟩
    · rintro ⟨-, hfirst, hrow⟩
      exact ⟨row.occurredAt, (hmin _).2 hfirst, hrow.symm⟩
  · constructor
    · rintro ⟨⟩
    · rintro ⟨⟨⟨hpipeline, hdeleted⟩, hlink⟩, -⟩
      exact absurd ⟨hpipeline, hdeleted, hlink⟩ hcond

theorem mem_performanceShipments {departmentKey : String} {row : ShipmentRow} :
    row ∈ performanceShipments tables refs departmentKey period ↔
      ∃ fact ∈ tables.deals, ∃ link ∈ tables.links,
        performanceRow tables refs departmentKey period fact link = some row := by
  rw [performanceShipments, List.mem_flatMap]
  simp only [List.mem_filterMap]

theorem nodup_performanceShipments (departmentKey : String) :
    ((performanceShipments tables refs departmentKey period).map ShipmentRow.dealId).Nodup := by
  have hrow : ∀ {fact link row}, performanceRow tables refs departmentKey period fact link = some row →
      link.shipmentDealId = fact.dealId ∧ row.dealId = fact.dealId := by
    intro fact link row h
    obtain ⟨⟨-, hlink, -⟩, -, heq⟩ := performanceRow_eq_some.1 h
    exact ⟨hlink, congrArg ShipmentRow.dealId heq⟩
  unfold List.Nodup
  rw [List.pairwise_map, performanceShipments, List.pairwise_flatMap]
  constructor
  · intro fact _
    have hlinks := List.pairwise_map.1 tables.linkKeys
    refine hlinks.filterMap _ fun link link' hne row h row' h' => ?_
    exact absurd ((hrow h).1.trans (hrow h').1.symm) hne
  · refine (List.pairwise_map.1 tables.dealKeys).imp fun {fact fact'} hne row h row' h' => ?_
    obtain ⟨link, -, h⟩ := List.mem_filterMap.1 h
    obtain ⟨link', -, h'⟩ := List.mem_filterMap.1 h'
    rw [(hrow h).2, (hrow h').2]
    exact hne

/-! ## Deals of the plans -/

theorem mem_planAssembly {departmentKey : String} {managers : List String} {fact : FactDeal} :
    fact ∈ planAssembly tables refs departmentKey managers ↔ fact ∈ tables.deals ∧ Live refs fact ∧
      ∃ link ∈ tables.links, link.shipmentDealId = fact.dealId ∧ link.status = .confirmed ∧
        link.departmentKey = some departmentKey ∧ ∃ managerId ∈ managers, link.managerId = some managerId := by
  unfold planAssembly Live
  simp only [List.mem_filter, List.mem_map, decide_eq_true_eq]
  constructor
  · rintro ⟨hfact, hpipeline, hdeleted, link, ⟨hlink, hstatus, hdepartment, hmanager⟩, hdeal⟩
    exact ⟨hfact, ⟨hpipeline, hdeleted⟩, link, hlink, hdeal, hstatus, hdepartment, hmanager⟩
  · rintro ⟨hfact, ⟨hpipeline, hdeleted⟩, link, hlink, hdeal, hstatus, hdepartment, hmanager⟩
    exact ⟨hfact, hpipeline, hdeleted, link, ⟨hlink, hstatus, hdepartment, hmanager⟩, hdeal⟩

theorem mem_planShipments {departmentKey : String} {managers : List String} {fact : FactDeal} :
    fact ∈ planShipments tables refs departmentKey managers period ↔
      fact ∈ planAssembly tables refs departmentKey managers ∧ ∃ t, Enters tables refs fact period t := by
  unfold planShipments Enters Period.has
  simp only [List.mem_filter, List.mem_map, decide_eq_true_eq]
  refine and_congr_right fun hassembly => ?_
  constructor
  · rintro ⟨transition, ⟨htransition, -, hstage, hstart, hend⟩, hdeal⟩
    exact ⟨_, transition, htransition, hdeal, hstage, rfl, hstart, by omega⟩
  · rintro ⟨_, transition, htransition, hdeal, hstage, rfl, hstart, hend⟩
    exact ⟨transition, ⟨htransition, ⟨fact, hassembly, hdeal.symm⟩, hstage, hstart, by omega⟩, hdeal⟩

/-! ## Entries of the reports -/

instance : Std.Total byDealAndTime := ⟨fun _ _ => le_total _ _⟩

instance : IsTrans StageTransition byDealAndTime := ⟨fun _ _ _ => le_trans⟩

theorem movedAt_le_of_byDealAndTime {a b : StageTransition} (h : byDealAndTime a b) (hdeal : a.dealId = b.dealId) :
    a.movedAt ≤ b.movedAt := by
  rcases Prod.Lex.toLex_le_toLex.1 h with hlt | ⟨-, hle⟩
  · exact absurd hdeal hlt.ne
  · exact hle

theorem mem_shippingEntries (hstage : StageInPipeline tables refs) {entry : StageTransition} :
    entry ∈ shippingEntries tables refs period ↔
      entry ∈ tables.transitions ∧ entry.toStageId = refs.shippingStageId ∧ period.has entry.movedAt := by
  unfold shippingEntries Period.has
  rw [List.mem_insertionSort]
  simp only [List.mem_filter, decide_eq_true_eq]
  constructor
  · rintro ⟨hentry, hto, -, hstart, hend⟩
    exact ⟨hentry, hto, hstart, by omega⟩
  · rintro ⟨hentry, hto, hstart, hend⟩
    exact ⟨hentry, hto, hstage entry hentry hto, hstart, by omega⟩

theorem mem_shippingDeals (hstage : StageInPipeline tables refs) {matches_ : FactDeal → Bool} {fact : FactDeal} :
    fact ∈ shippingDeals tables refs matches_ period ↔
      fact ∈ tables.deals ∧ Live refs fact ∧ matches_ fact = true ∧ ∃ t, Enters tables refs fact period t := by
  unfold shippingDeals Live Enters
  simp only [List.mem_filter, List.mem_map, decide_eq_true_eq]
  constructor
  · rintro ⟨hfact, hdeleted, hpipeline, ⟨entry, hentry, hdeal⟩, hmatches⟩
    obtain ⟨hentry, hto, hperiod⟩ := (mem_shippingEntries hstage).1 hentry
    exact ⟨hfact, ⟨hpipeline, hdeleted⟩, hmatches, _, entry, hentry, hdeal, hto, rfl, hperiod⟩
  · rintro ⟨hfact, ⟨hpipeline, hdeleted⟩, hmatches, _, entry, hentry, hdeal, hto, rfl, hperiod⟩
    exact ⟨hfact, hdeleted, hpipeline, ⟨entry, (mem_shippingEntries hstage).2 ⟨hentry, hto, hperiod⟩, hdeal⟩, hmatches⟩

/-- `dealsById` finds the deal of an id. -/
theorem get?_dealsById {matches_ : FactDeal → Bool} {id : String} {fact : FactDeal} :
    JsMap.get? id (JsMap.ofEntries ((shippingDeals tables refs matches_ period).map fun deal => (deal.dealId, deal))) =
      some fact ↔ fact ∈ shippingDeals tables refs matches_ period ∧ fact.dealId = id := by
  have hkeys : (((shippingDeals tables refs matches_ period).map fun deal => (deal.dealId, deal)).map Prod.fst).Nodup := by
    rw [List.map_map]
    exact (List.filter_sublist.map FactDeal.dealId).nodup tables.dealKeys
  rw [JsMap.ofEntries_of_nodup hkeys, JsMap.get?_eq_some_iff hkeys, List.mem_map]
  constructor
  · rintro ⟨deal, hdeal, heq⟩
    cases heq
    exact ⟨hdeal, rfl⟩
  · rintro ⟨hfact, rfl⟩
    exact ⟨fact, hfact, rfl⟩

theorem nodup_getActualShipping (matches_ : FactDeal → Bool) :
    ((getActualShipping tables refs matches_ period).map Prod.fst).Nodup :=
  JsMap.nodup_keys_collect _ _ (show ([].map _).Nodup from List.nodup_nil)

theorem mem_shippedDeals (hstage : StageInPipeline tables refs) {matches_ : FactDeal → Bool} {fact : FactDeal} {t : ℤ} :
    (fact, t) ∈ shippedDeals tables refs matches_ period ↔ fact ∈ tables.deals ∧ Live refs fact ∧ matches_ fact = true ∧
      Enters tables refs fact period t := by
  unfold shippedDeals
  dsimp only
  rw [List.mem_filterMap]
  constructor
  · rintro ⟨entry, hentry, hsome⟩
    obtain ⟨_, hdeal, heq⟩ := Option.map_eq_some_iff.1 hsome
    cases heq
    obtain ⟨hdeal, hid⟩ := get?_dealsById.1 hdeal
    obtain ⟨hentry, hto, hperiod⟩ := (mem_shippingEntries hstage).1 hentry
    obtain ⟨hfact, hlive, hmatches, -⟩ := (mem_shippingDeals hstage).1 hdeal
    exact ⟨hfact, hlive, hmatches, entry, hentry, hid.symm, hto, rfl, hperiod⟩
  · rintro ⟨hfact, hlive, hmatches, entry, hentry, hid, hto, rfl, hperiod⟩
    have hdeal := (mem_shippingDeals hstage).2 ⟨hfact, hlive, hmatches, _, entry, hentry, hid, hto, rfl, hperiod⟩
    exact ⟨entry, (mem_shippingEntries hstage).2 ⟨hentry, hto, hperiod⟩,
      Option.map_eq_some_iff.2 ⟨fact, get?_dealsById.2 ⟨hdeal, hid.symm⟩, rfl⟩⟩

/-- The entries of one deal come in the order of time. -/
theorem shippedDeals_ordered (matches_ : FactDeal → Bool) : (shippedDeals tables refs matches_ period).Pairwise
    fun a b => a.1.dealId = b.1.dealId → a.2 ≤ b.2 := by
  have hsorted : (shippingEntries tables refs period).Pairwise byDealAndTime := List.pairwise_insertionSort _ _
  refine hsorted.filterMap _ fun entry entry' hle a ha b hb hid => ?_
  obtain ⟨deal, hdeal, rfl⟩ := Option.map_eq_some_iff.1 ha
  obtain ⟨deal', hdeal', rfl⟩ := Option.map_eq_some_iff.1 hb
  exact movedAt_le_of_byDealAndTime hle
    ((get?_dealsById.1 hdeal).2.symm.trans (hid.trans (get?_dealsById.1 hdeal').2))

/-- The reports have a deal that they consider with its first entry. -/
theorem mem_getActualShipping (hstage : StageInPipeline tables refs) {matches_ : FactDeal → Bool} {id : String}
    {fact : FactDeal} {t : ℤ} : (id, fact, t) ∈ getActualShipping tables refs matches_ period ↔
      id = fact.dealId ∧ fact ∈ tables.deals ∧ Live refs fact ∧ matches_ fact = true ∧
        EntersFirst tables refs fact period t := by
  rw [← JsMap.get?_eq_some_iff (nodup_getActualShipping matches_), getActualShipping, JsMap.get?_collect_first]
  have hleast : ∀ {found : FactDeal × ℤ}, ((shippedDeals tables refs matches_ period).find? fun a =>
      decide (a.1.dealId = id)) = some found → id = found.1.dealId ∧ found.1 ∈ tables.deals ∧ Live refs found.1 ∧
        matches_ found.1 = true ∧ EntersFirst tables refs found.1 period found.2 := by
    rintro ⟨deal, at_⟩ hfind
    obtain ⟨hmem, hid, hle⟩ := FirstLeast.find?_least (shippedDeals_ordered matches_) hfind
    obtain ⟨hdeal, hlive, hmatches, hat⟩ := (mem_shippedDeals hstage).1 hmem
    exact ⟨hid.symm, hdeal, hlive, hmatches, hat, fun t' ht' =>
      hle (deal, t') ((mem_shippedDeals hstage).2 ⟨hdeal, hlive, hmatches, ht'⟩) hid⟩
  constructor
  · exact fun hfind => hleast hfind
  · rintro ⟨rfl, hfact, hlive, hmatches, hfirst⟩
    have hmem := (mem_shippedDeals hstage).2 ⟨hfact, hlive, hmatches, hfirst.1⟩
    have hsome : ((shippedDeals tables refs matches_ period).find? fun a =>
        decide (a.1.dealId = fact.dealId)).isSome = true :=
      List.find?_isSome.2 ⟨_, hmem, decide_eq_true (rfl : fact.dealId = fact.dealId)⟩
    obtain ⟨⟨deal, at_⟩, hfind⟩ := Option.isSome_iff_exists.1 hsome
    obtain ⟨hid, hdeal, -, -, hat⟩ := hleast hfind
    obtain rfl : fact = deal := List.inj_on_of_nodup_map tables.dealKeys hfact hdeal hid
    rw [hfind, hfirst.unique hat]

end Entries

/-! ## The three services -/

inductive Service
  | performance (departmentKey : String)
  | plans (departmentKey : String) (managers : List String)
  | reports (matches_ : FactDeal → Bool)

section Services

variable (tables : Tables) (refs : ShippingRefs)

/-- The deals that a service counts as shipped in a period, with their budgets. -/
def counted (period : Period) : Service → List (String × ℚ)
  | .performance departmentKey =>
    (performanceShipments tables refs departmentKey period).map fun row => (row.dealId, row.amount)
  | .plans departmentKey managers =>
    (planShipments tables refs departmentKey managers period).map fun deal => (deal.dealId, deal.amount)
  | .reports matches_ =>
    (getActualShipping tables refs matches_ period).map fun entry => (entry.1, entry.2.1.amount)

/-- The deals a service looks at, whatever the period. -/
def Considers (fact : FactDeal) : Service → Prop
  | .performance departmentKey => Live refs fact ∧ ∃ link ∈ tables.links, link.shipmentDealId = fact.dealId ∧
      link.status = .confirmed ∧ link.departmentKey = some departmentKey
  | .plans departmentKey managers => Live refs fact ∧ ∃ link ∈ tables.links, link.shipmentDealId = fact.dealId ∧
      link.status = .confirmed ∧ link.departmentKey = some departmentKey ∧
        ∃ managerId ∈ managers, link.managerId = some managerId
  | .reports matches_ => Live refs fact ∧ matches_ fact = true

end Services

section Counted

variable {tables : Tables} {refs : ShippingRefs}

theorem nodup_counted (period : Period) (service : Service) :
    ((counted tables refs period service).map Prod.fst).Nodup := by
  cases service with
  | performance departmentKey =>
    rw [counted, List.map_map]
    exact nodup_performanceShipments departmentKey
  | plans departmentKey managers =>
    rw [counted, List.map_map]
    exact ((List.filter_sublist.trans List.filter_sublist).map FactDeal.dealId).nodup tables.dealKeys
  | reports matches_ =>
    rw [counted, List.map_map]
    exact nodup_getActualShipping matches_

/-- A service counts a deal it considers, with its budget, in the periods with an entry of it. -/
theorem mem_counted (hstage : StageInPipeline tables refs) {fact : FactDeal} (hfact : fact ∈ tables.deals)
    (period : Period) (service : Service) (amount : ℚ) : (fact.dealId, amount) ∈ counted tables refs period service ↔
      amount = fact.amount ∧ Considers tables refs fact service ∧ ∃ t, Enters tables refs fact period t := by
  have hsame : ∀ {deal : FactDeal}, deal ∈ tables.deals → deal.dealId = fact.dealId → deal = fact := fun hdeal hid =>
    List.inj_on_of_nodup_map tables.dealKeys hdeal hfact hid
  cases service with
  | performance departmentKey =>
    rw [counted, List.mem_map]
    constructor
    · rintro ⟨row, hrow, heq⟩
      obtain ⟨deal, hdeal, link, hlink, hsome⟩ := mem_performanceShipments.1 hrow
      obtain ⟨⟨hlive, hcond⟩, hfirst, hvalues⟩ := performanceRow_eq_some.1 hsome
      rw [hvalues] at heq
      obtain rfl := hsame hdeal (Prod.mk.inj heq).1
      exact ⟨(Prod.mk.inj heq).2.symm, ⟨hlive, link, hlink, hcond⟩, _, hfirst.1⟩
    · rintro ⟨rfl, ⟨hlive, link, hlink, hcond⟩, t, ht⟩
      obtain ⟨first, hfirst⟩ := ht.first
      exact ⟨⟨fact.dealId, link.managerId, fact.amount, first⟩, mem_performanceShipments.2 ⟨fact, hfact, link, hlink,
        performanceRow_eq_some.2 ⟨⟨hlive, hcond⟩, hfirst, rfl⟩⟩, rfl⟩
  | plans departmentKey managers =>
    rw [counted, List.mem_map]
    constructor
    · rintro ⟨deal, hdeal, heq⟩
      obtain ⟨hassembly, hentered⟩ := mem_planShipments.1 hdeal
      obtain ⟨hdeal, hconsidered⟩ := mem_planAssembly.1 hassembly
      obtain rfl := hsame hdeal (Prod.mk.inj heq).1
      exact ⟨(Prod.mk.inj heq).2.symm, hconsidered, hentered⟩
    · rintro ⟨rfl, hconsidered, hentered⟩
      exact ⟨fact, mem_planShipments.2 ⟨mem_planAssembly.2 ⟨hfact, hconsidered⟩, hentered⟩, rfl⟩
  | reports matches_ =>
    rw [counted, List.mem_map]
    constructor
    · rintro ⟨⟨id, deal, t⟩, hentry, heq⟩
      obtain ⟨hid, hdeal, hlive, hmatches, hfirst⟩ := (mem_getActualShipping hstage).1 hentry
      obtain rfl := hsame hdeal (hid.symm.trans (Prod.mk.inj heq).1)
      exact ⟨(Prod.mk.inj heq).2.symm, ⟨hlive, hmatches⟩, t, hfirst.1⟩
    · rintro ⟨rfl, ⟨hlive, hmatches⟩, t, ht⟩
      obtain ⟨first, hfirst⟩ := ht.first
      exact ⟨(fact.dealId, fact, first), (mem_getActualShipping hstage).2 ⟨rfl, hfact, hlive, hmatches, hfirst⟩, rfl⟩

theorem mem_keys_counted (hstage : StageInPipeline tables refs) {fact : FactDeal} (hfact : fact ∈ tables.deals)
    (period : Period) (service : Service) : fact.dealId ∈ (counted tables refs period service).map Prod.fst ↔
      Considers tables refs fact service ∧ ∃ t, Enters tables refs fact period t := by
  rw [List.mem_map]
  constructor
  · rintro ⟨⟨id, amount⟩, hmem, rfl⟩
    exact ((mem_counted hstage hfact period service amount).1 hmem).2
  · intro h
    exact ⟨(fact.dealId, fact.amount), (mem_counted hstage hfact period service _).2 ⟨rfl, h⟩, rfl⟩

/-- The performance page and the reports date a deal of both to the same entry. -/
theorem occurredAt_eq_shippedAt (hstage : StageInPipeline tables refs) {period : Period} {departmentKey : String}
    {matches_ : FactDeal → Bool} {row : ShipmentRow} {entry : String × FactDeal × ℤ}
    (hrow : row ∈ performanceShipments tables refs departmentKey period)
    (hentry : entry ∈ getActualShipping tables refs matches_ period) (hid : row.dealId = entry.1) :
    row.occurredAt = entry.2.2 := by
  obtain ⟨deal, hdeal, link, -, hsome⟩ := mem_performanceShipments.1 hrow
  obtain ⟨-, hfirst, hvalues⟩ := performanceRow_eq_some.1 hsome
  obtain ⟨entryId, shipped, shippedAt⟩ := entry
  obtain ⟨hid', hdeal', -, -, hfirst'⟩ := (mem_getActualShipping hstage).1 hentry
  have hdealId : row.dealId = deal.dealId := congrArg ShipmentRow.dealId hvalues
  have hsame : deal = shipped :=
    List.inj_on_of_nodup_map tables.dealKeys hdeal hdeal' (hdealId.symm.trans (hid.trans hid'))
  rw [← hsame] at hfirst'
  exact hfirst.unique hfirst'

/-- Within one period a service counts a deal at most once, with its budget, and exactly in the periods with an entry of
it, so all services that consider the deal agree on the periods and on the instant. Of disjoint periods it is counted in
two exactly when it entered the shipment stage in both. -/
theorem shipments_of_periods (hstage : StageInPipeline tables refs) {fact : FactDeal} (hfact : fact ∈ tables.deals)
    {ι : Type} (period : ι → Period) (hdisjoint : ∀ i j, i ≠ j → ∀ t, ¬ ((period i).has t ∧ (period j).has t)) :
    (∀ i service, ((counted tables refs (period i) service).map Prod.fst).Nodup) ∧
      (∀ i service amount, (fact.dealId, amount) ∈ counted tables refs (period i) service ↔
        amount = fact.amount ∧ Considers tables refs fact service ∧ ∃ t, Enters tables refs fact (period i) t) ∧
      (∀ i departmentKey matches_ row entry, row ∈ performanceShipments tables refs departmentKey (period i) →
        entry ∈ getActualShipping tables refs matches_ (period i) → row.dealId = entry.1 →
          row.occurredAt = entry.2.2) ∧
      ∀ service, (∃ i j, i ≠ j ∧ fact.dealId ∈ (counted tables refs (period i) service).map Prod.fst ∧
          fact.dealId ∈ (counted tables refs (period j) service).map Prod.fst) ↔
        Considers tables refs fact service ∧ ∃ i j t t', i ≠ j ∧ t ≠ t' ∧ Enters tables refs fact (period i) t ∧
          Enters tables refs fact (period j) t' := by
  refine ⟨fun i service => nodup_counted (period i) service,
    fun i service amount => mem_counted hstage hfact (period i) service amount,
    fun i departmentKey matches_ row entry => occurredAt_eq_shippedAt hstage, fun service => ?_⟩
  constructor
  · rintro ⟨i, j, hne, hi, hj⟩
    obtain ⟨hconsiders, t, ht⟩ := (mem_keys_counted hstage hfact (period i) service).1 hi
    obtain ⟨-, t', ht'⟩ := (mem_keys_counted hstage hfact (period j) service).1 hj
    refine ⟨hconsiders, i, j, t, t', hne, ?_, ht, ht'⟩
    rintro rfl
    obtain ⟨_, -, -, -, -, hin⟩ := ht
    obtain ⟨_, -, -, -, -, hin'⟩ := ht'
    exact hdisjoint i j hne t ⟨hin, hin'⟩
  · rintro ⟨hconsiders, i, j, t, t', hne, -, ht, ht'⟩
    exact ⟨i, j, hne, (mem_keys_counted hstage hfact (period i) service).2 ⟨hconsiders, t, ht⟩,
      (mem_keys_counted hstage hfact (period j) service).2 ⟨hconsiders, t', ht'⟩⟩

/-- A deal that left the shipment stage and entered it again. -/
def reentered : Tables where
  deals := [⟨"deal", "assembly", none, 100⟩]
  transitions := [⟨"deal", "assembly", "shipped", 5⟩, ⟨"deal", "assembly", "packing", 8⟩,
    ⟨"deal", "assembly", "shipped", 15⟩]
  links := [⟨"deal", .confirmed, some "sales", some "manager"⟩]
  dealKeys := by decide
  linkKeys := by decide

theorem reentered_stage : StageInPipeline reentered ⟨"assembly", "shipped"⟩ := by
  unfold StageInPipeline
  decide

/-- Two months. -/
def months (second : Bool) : Period := if second then ⟨10, 20⟩ else ⟨0, 10⟩

theorem months_disjoint (i j : Bool) (hne : i ≠ j) (t : ℤ) : ¬ ((months i).has t ∧ (months j).has t) := by
  unfold Period.has
  cases i <;> cases j <;> simp_all [months]

theorem shipments_of_periods_sample :
    (∃ i j, i ≠ j ∧
        "deal" ∈ (counted reentered ⟨"assembly", "shipped"⟩ (months i) (.performance "sales")).map Prod.fst ∧
        "deal" ∈ (counted reentered ⟨"assembly", "shipped"⟩ (months j) (.performance "sales")).map Prod.fst) ↔
      Considers reentered ⟨"assembly", "shipped"⟩ ⟨"deal", "assembly", none, 100⟩ (.performance "sales") ∧
        ∃ i j t t', i ≠ j ∧ t ≠ t' ∧
          Enters reentered ⟨"assembly", "shipped"⟩ ⟨"deal", "assembly", none, 100⟩ (months i) t ∧
          Enters reentered ⟨"assembly", "shipped"⟩ ⟨"deal", "assembly", none, 100⟩ (months j) t' :=
  (shipments_of_periods reentered_stage List.mem_cons_self months months_disjoint).2.2.2 (.performance "sales")

theorem reentered_entered (i : Bool) :
    ∃ t, Enters reentered ⟨"assembly", "shipped"⟩ ⟨"deal", "assembly", none, 100⟩ (months i) t := by
  cases i with
  | false => exact ⟨5, ⟨"deal", "assembly", "shipped", 5⟩, List.mem_cons_self, rfl, rfl, rfl, by decide⟩
  | true =>
    exact ⟨15, ⟨"deal", "assembly", "shipped", 15⟩, List.mem_cons_of_mem _ (List.mem_cons_of_mem _ List.mem_cons_self),
      rfl, rfl, rfl, by decide⟩

/-- All three services count it, with its budget, in both months. -/
theorem shipped_in_two_months :
    (∀ i, ("deal", 100) ∈ counted reentered ⟨"assembly", "shipped"⟩ (months i) (.performance "sales")) ∧
      (∀ i, ("deal", 100) ∈ counted reentered ⟨"assembly", "shipped"⟩ (months i) (.plans "sales" ["manager"])) ∧
      ∀ i, ("deal", 100) ∈ counted reentered ⟨"assembly", "shipped"⟩ (months i) (.reports fun _ => true) := by
  have hcounted : ∀ service, Considers reentered ⟨"assembly", "shipped"⟩ ⟨"deal", "assembly", none, 100⟩ service →
      ∀ i, ("deal", 100) ∈ counted reentered ⟨"assembly", "shipped"⟩ (months i) service := fun service h i =>
    (mem_counted reentered_stage (show ⟨"deal", "assembly", none, 100⟩ ∈ reentered.deals from List.mem_cons_self)
      (months i) service 100).2
      ⟨rfl, h, reentered_entered i⟩
  have hlive : Live ⟨"assembly", "shipped"⟩ ⟨"deal", "assembly", none, 100⟩ := ⟨rfl, rfl⟩
  exact ⟨hcounted _ ⟨hlive, _, List.mem_cons_self, rfl, rfl, rfl⟩,
    hcounted _ ⟨hlive, _, List.mem_cons_self, rfl, rfl, rfl, "manager", List.mem_cons_self, rfl⟩,
    hcounted _ ⟨hlive, rfl⟩⟩

end Counted

end AmoAnalytics.Workspaces.Shipments
