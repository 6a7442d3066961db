import AmoAnalytics.Workspaces.PerformanceSums

/-!
# The total of the performance page

A view over all managers has a row for every manager whose numbers enter the total, so that the total of a metric is
the sum of its rows.
-/

namespace AmoAnalytics.Workspaces.Performance

open CivilDate Shipments

/-! ## The rows -/

section Rows

variable {users found : List CrmUser}

theorem nodup_append_missing (husers : (users.map CrmUser.id).Nodup) (hfound : (found.map CrmUser.id).Nodup)
    (ids : List String) :
    ((found ++ users.filter fun user => user.id ∈ ids ∧ user.id ∉ found.map CrmUser.id).map CrmUser.id).Nodup := by
  rw [List.map_append, List.nodup_append]
  refine ⟨hfound, husers.sublist (List.filter_sublist.map _), ?_⟩
  rintro id hid _ hmissing rfl
  obtain ⟨user, huser, rfl⟩ := List.mem_map.1 hmissing
  have hnot := (of_decide_eq_true (List.mem_filter.1 huser).2).2
  exact hnot hid

theorem mem_append_missing (ids : List String) {id : String} :
    id ∈ (found ++ users.filter fun user => user.id ∈ ids ∧ user.id ∉ found.map CrmUser.id).map CrmUser.id ↔
      id ∈ found.map CrmUser.id ∨ id ∈ ids ∧ id ∈ users.map CrmUser.id := by
  rw [List.map_append, List.mem_append]
  constructor
  · rintro (h | h)
    · exact .inl h
    · obtain ⟨user, huser, rfl⟩ := List.mem_map.1 h
      obtain ⟨hmem, hcond⟩ := List.mem_filter.1 huser
      exact .inr ⟨(of_decide_eq_true hcond).1, List.mem_map_of_mem hmem⟩
  · rintro (h | ⟨hids, h⟩)
    · exact .inl h
    · by_cases hfound : id ∈ found.map CrmUser.id
      · exact .inl hfound
      · obtain ⟨user, huser, rfl⟩ := List.mem_map.1 h
        exact .inr (List.mem_map_of_mem (List.mem_filter.2 ⟨huser, decide_eq_true ⟨hids, hfound⟩⟩))

variable {db : Database} {department : Department} {view : View} {month : Period}

theorem nodup_names : ((names db department view month).map CrmUser.id).Nodup := by
  have hfirst : ((db.users.filter fun user => user.id ∈ view.ids ∨ user.groupId = some department.groupId).map
      CrmUser.id).Nodup := db.userKeys.sublist (List.filter_sublist.map _)
  unfold names
  dsimp only
  split_ifs with hall
  · cases db.finance with
    | none => exact nodup_append_missing db.userKeys hfirst _
    | some _ => exact nodup_append_missing db.userKeys (nodup_append_missing db.userKeys hfirst _) _
  · exact hfirst

theorem names_subset {id : String} (h : id ∈ (names db department view month).map CrmUser.id) :
    id ∈ db.users.map CrmUser.id := by
  have hfirst : ∀ {id}, id ∈ (db.users.filter fun user =>
      user.id ∈ view.ids ∨ user.groupId = some department.groupId).map CrmUser.id → id ∈ db.users.map CrmUser.id :=
    fun h => (List.filter_sublist.map _).subset h
  unfold names at h
  dsimp only at h
  split_ifs at h with hall
  · cases hfinance : db.finance with
    | none =>
      rw [hfinance] at h
      exact ((mem_append_missing _).1 h).elim hfirst And.right
    | some _ =>
      rw [hfinance] at h
      exact ((mem_append_missing _).1 h).elim (fun h => ((mem_append_missing _).1 h).elim hfirst And.right) And.right
  · exact hfirst h

/-- Every selected user has a name. -/
theorem mem_names_of_selected (hall : view.allManagers = true) {id : String}
    (hid : id ∈ selectedIds db department view month) (huser : id ∈ db.users.map CrmUser.id) :
    id ∈ (names db department view month).map CrmUser.id := by
  have hfirst : id ∈ view.ids → id ∈ (db.users.filter fun user =>
      user.id ∈ view.ids ∨ user.groupId = some department.groupId).map CrmUser.id := by
    intro hview
    obtain ⟨user, hmem, rfl⟩ := List.mem_map.1 huser
    exact List.mem_map_of_mem (List.mem_filter.2 ⟨hmem, decide_eq_true (.inl hview)⟩)
  unfold names
  dsimp only
  rw [if_pos hall]
  cases hfinance : db.finance with
  | none =>
    unfold selectedIds at hid
    rw [hfinance, if_pos hall, List.append_nil, List.mem_append] at hid
    exact (mem_append_missing _).2 (hid.imp hfirst fun h => ⟨h, huser⟩)
  | some _ => exact (mem_append_missing _).2 (.inr ⟨hid, huser⟩)

theorem nodup_rows : ((rows db department view month).map CrmUser.id).Nodup :=
  nodup_names.sublist (List.filter_sublist.map _)

/-- Over all managers the rows are the selected users. -/
theorem mem_rows (hall : view.allManagers = true) {id : String} : id ∈ (rows db department view month).map CrmUser.id ↔
    id ∈ selectedIds db department view month ∧ id ∈ db.users.map CrmUser.id := by
  unfold rows
  constructor
  · intro h
    obtain ⟨user, huser, rfl⟩ := List.mem_map.1 h
    obtain ⟨hname, hselected⟩ := List.mem_filter.1 huser
    exact ⟨of_decide_eq_true hselected, names_subset (List.mem_map_of_mem hname)⟩
  · rintro ⟨hselected, huser⟩
    obtain ⟨user, hname, rfl⟩ := List.mem_map.1 (mem_names_of_selected hall hselected huser)
    exact List.mem_map_of_mem (List.mem_filter.2 ⟨hname, decide_eq_true hselected⟩)

end Rows

/-! ## Sums over the rows -/

section Totals

variable {db : Database} {department : Department} {view : View} {month : Period}

theorem relevant_some {selected : List String} {id : String} {actor : Option String} :
    relevant selected (some id) actor = true ↔ actor = some id := by
  cases actor with
  | none => simp [relevant]
  | some actor => simp [relevant]

theorem relevant_none {selected : List String} {actor : Option String} :
    relevant selected none actor = true ↔ ∃ id ∈ selected, actor = some id := by
  cases actor with
  | none => simp [relevant]
  | some actor => simp [relevant]

/-- What is weighed for each row adds up to what is weighed for the total, where the actors are users. -/
theorem sum_rows {α : Type} (hall : view.allManagers = true) {l : List α} (actor : α → Option String) (w : α → ℚ)
    (hactor : ∀ x ∈ l, ∀ id, actor x = some id → id ∈ db.users.map CrmUser.id) :
    ((rows db department view month).map fun row => ((l.filter fun x =>
        relevant (selectedIds db department view month) (some row.id) (actor x)).map w).sum).sum =
      ((l.filter fun x => relevant (selectedIds db department view month) none (actor x)).map w).sum := by
  set selected := selectedIds db department view month
  set ids := (rows db department view month).map CrmUser.id
  have hlist : ((rows db department view month).map fun row => ((l.filter fun x =>
      relevant selected (some row.id) (actor x)).map w).sum).sum =
      ∑ id ∈ ids.toFinset, ((l.filter fun x => relevant selected (some id) (actor x) = true).map w).sum := by
    rw [List.sum_toFinset _ nodup_rows, List.map_map]
    simp only [Bool.decide_eq_true]
    rfl
  have hcells : ∑ id ∈ ids.toFinset, ((l.filter fun x => relevant selected (some id) (actor x) = true).map w).sum =
      ((l.filter fun x => relevant selected none (actor x) = true).map w).sum := by
    refine sum_cells (fun x hx => ?_) (fun i _ j _ x _ hi hj => ?_) w
    · rw [relevant_none]
      simp only [relevant_some, List.mem_toFinset]
      constructor
      · rintro ⟨id, hid, hactor'⟩
        exact ⟨id, (mem_rows hall).2 ⟨hid, hactor x hx id hactor'⟩, hactor'⟩
      · rintro ⟨id, hid, hactor'⟩
        exact ⟨id, ((mem_rows hall).1 hid).1, hactor'⟩
    · rw [relevant_some] at hi hj
      exact Option.some.inj (hi.symm.trans hj)
  rw [hlist, hcells]
  simp only [Bool.decide_eq_true]

/-! ## Money -/

theorem roundMoney_cents {v : ℚ} (h : ∃ n : ℤ, v = n / 100) : roundMoney v = v := by
  obtain ⟨n, rfl⟩ := h
  have hfloor : ⌊((n : ℚ) / 100 + 1 / 2 ^ 52) * 100 + 1 / 2⌋ = n := by
    rw [Int.floor_eq_iff]
    constructor
    · linarith
    · norm_num
      linarith
  rw [roundMoney, hfloor]

theorem sum_cents {l : List FinanceDocument} : ∃ n : ℤ, (l.map FinanceDocument.margin).sum = n / 100 := by
  induction l with
  | nil => exact ⟨0, by simp⟩
  | cons document l ih =>
    obtain ⟨n, hn⟩ := ih
    obtain ⟨m, hm⟩ := document.cents
    refine ⟨m + n, ?_⟩
    rw [List.map_cons, List.sum_cons, hn, hm]
    push_cast
    ring

/-! ## The facts -/

theorem creditedFact_eq (mode : Option CompetitionMode) (period : Period) (id : Option String)
    (metric : ActivityMetric) : (creditedFact db department mode view month period id metric : ℚ) =
      ((((credited db department mode month period).filter fun event => event.metric = metric).filter fun event =>
        relevant (selectedIds db department view month) id event.actorId).map fun _ => (1 : ℚ)).sum := by
  rw [creditedFact, List.filter_filter]
  simp [Bool.and_comm]

theorem mem_of_creditLoop {unique : ActivityMetric → Bool} {period : Period} {seen : List (ActivityMetric × String)}
    {l : List Activity} {event : Activity} (h : event ∈ creditLoop unique period seen l) : event ∈ l := by
  induction l generalizing seen with
  | nil => cases h
  | cons first rest ih =>
    unfold creditLoop at h
    dsimp only at h
    split_ifs at h
    all_goals first
      | exact List.mem_cons_of_mem _ (ih h)
      | exact (List.mem_cons.1 h).elim (fun he => he ▸ List.mem_cons_self) fun h => List.mem_cons_of_mem _ (ih h)

theorem actor_is_user {activity : Activity} (h : activity ∈ activities db department month) {id : String}
    (hid : activity.actorId = some id) : id ∈ db.users.map CrmUser.id := by
  obtain ⟨event, -, rule, -, hsome⟩ := mem_activities.1 h
  obtain ⟨dealId, -, -, rfl⟩ := activityOf_eq_some.1 hsome
  obtain ⟨name, -, hname⟩ := Option.bind_eq_some_iff.1 hid
  obtain ⟨user, hfind, rfl⟩ := Option.map_eq_some_iff.1 hname
  exact List.mem_map_of_mem (List.mem_of_find?_eq_some hfind)

theorem shipment_manager_is_user {period : Period} {row : ShipmentRow}
    (h : row ∈ performanceShipments db.shipping department.refs department.key period) {id : String}
    (hid : row.actorId = some id) : id ∈ db.users.map CrmUser.id := by
  obtain ⟨fact, -, link, hlink, hsome⟩ := mem_performanceShipments.1 h
  obtain ⟨-, -, hrow⟩ := performanceRow_eq_some.1 hsome
  rw [hrow] at hid
  exact db.linkManagers link hlink id hid

/-- A fact is missing for the margin only, and there for every row or for none. -/
theorem fact_eq_none {mode : Option CompetitionMode} {period : Period} {id : Option String} {metric : FactMetric} :
    fact db department mode view month period id metric = none ↔
      metric = .shipmentMargin ∧ ∀ source, db.finance = some source → source.hasCutoff = false := by
  cases metric with
  | activity metric => simp [fact]
  | shipments => simp [fact]
  | shipmentMargin =>
    unfold fact
    cases db.finance with
    | none => simp
    | some source => cases hcutoff : source.hasCutoff <;> simp [hcutoff]

/-- The total of a metric is the sum of the rows. -/
theorem fact_total (hall : view.allManagers = true) {mode : Option CompetitionMode} {period : Period}
    {metric : FactMetric} {total : ℚ} (h : fact db department mode view month period none metric = some total) :
    ((rows db department view month).map fun row =>
      (fact db department mode view month period (some row.id) metric).getD 0).sum = total := by
  cases metric with
  | activity metric =>
    obtain rfl := Option.some.inj h
    simp only [fact, Option.getD_some, creditedFact_eq]
    refine sum_rows hall _ _ fun event hevent id => actor_is_user (mem_of_creditLoop (List.mem_of_mem_filter hevent))
  | shipments =>
    obtain rfl := Option.some.inj h
    exact sum_rows hall _ _ fun row hrow id => shipment_manager_is_user hrow
  | shipmentMargin =>
    unfold fact at h ⊢
    cases hfinance : db.finance with
    | none => rw [hfinance] at h; cases h
    | some source =>
      rw [hfinance] at h
      dsimp only at h ⊢
      split_ifs at h with hcutoff
      obtain rfl := Option.some.inj h
      simp only [if_pos hcutoff, Option.getD_some, roundMoney_cents sum_cents]
      refine sum_rows hall _ _ fun document hdocument id hid => ?_
      exact db.financeManagers source hfinance id (hid ▸ source.linked document hdocument)

end Totals

end AmoAnalytics.Workspaces.Performance
