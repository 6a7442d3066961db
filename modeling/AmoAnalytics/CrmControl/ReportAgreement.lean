import AmoAnalytics.CrmControl.ReportListing

/-!
# The list and the summary agree

The summary adds up counts row by row under keys of its own; the list filters rows one by one. Both
count the same deals: for every manager, department and rule, the number of listed observations is the
count of the summary (`listing_agrees`).
-/

namespace AmoAnalytics.CrmControl

/-! ## The counts of the summary -/

/-- The deals with a status. -/
def Counts.dealsWith (counts : Counts) : ResultStatus → ℕ
  | .fail => counts.failedDeals
  | .review => counts.reviewDeals
  | .unknown => counts.unknownDeals
  | _ => 0

def RuleDealCounts.dealsWith (counts : RuleDealCounts) : ResultStatus → ℕ
  | .fail => counts.failedDeals
  | .review => counts.reviewDeals
  | .unknown => counts.unknownDeals
  | _ => 0

/-- The statuses that are counted in deals. -/
def ResultStatus.Counted (status : ResultStatus) : Prop :=
  status = .fail ∨ status = .review ∨ status = .unknown

/-- The rows of the managers that a query selects. -/
def Summary.rows (s : Summary) (query : DealsQuery) : List ManagerRow :=
  s.managers.filter fun row => query.selects row.managerId row.department

/-- The cells of a rule that a query selects. -/
def Summary.cells (s : Summary) (query : DealsQuery) (ruleCode : String) : List RuleCell :=
  ((s.ruleBreakdown.filter fun rule => rule.ruleCode = ruleCode).flatMap (·.byManager)).filter
    fun cell => query.selects cell.managerId cell.department

/-- The count of the summary for a query: that of the cells of its rule, or of the managers. -/
def Summary.count (s : Summary) (query : DealsQuery) (status : ResultStatus) : ℕ :=
  match given query.ruleCode with
  | none => ((s.rows query).map fun row => row.counts.dealsWith status).sum
  | some ruleCode => ((s.cells query ruleCode).map fun cell => cell.counts.dealsWith status).sum

@[simp] theorem dealsWith_add (a b : Counts) (status : ResultStatus) :
    (addControlCounts a b).dealsWith status = a.dealsWith status + b.dealsWith status := by
  cases status <;> rfl

@[simp] theorem RuleDealCounts.dealsWith_add (a b : RuleDealCounts) (status : ResultStatus) :
    (a.add b).dealsWith status = a.dealsWith status + b.dealsWith status := by
  cases status <;> rfl

@[simp] theorem dealsWith_empty (status : ResultStatus) : emptyControlCounts.dealsWith status = 0 := by
  cases status <;> rfl

@[simp] theorem RuleDealCounts.dealsWith_empty (status : ResultStatus) :
    RuleDealCounts.dealsWith {} status = 0 := by
  cases status <;> rfl

/-- The results have one with the status. -/
def hasStatus (db : Db) (results : List ResultRow) (observedAt : ℤ) (status : ResultStatus) : Bool :=
  results.any fun r => effectiveStatus db r observedAt = status

theorem countStatus_pos (db : Db) (results : List ResultRow) (observedAt : ℤ) (status : ResultStatus) :
    0 < countStatus (results.map fun r => statusOnly (effectiveStatus db r observedAt)) status ↔
      hasStatus db results observedAt status = true := by
  rw [countStatus, List.countP_map, List.countP_pos_iff, hasStatus, List.any_eq_true]
  rfl

/-- A deal counts once for each status of its results. -/
theorem dealsWith_effectiveCounts {status : ResultStatus} (hstatus : status.Counted) (db : Db)
    (results : List ResultRow) (observedAt : ℤ) :
    (effectiveCounts db results observedAt).dealsWith status =
      (hasStatus db results observedAt status).toNat := by
  have hcount : ∀ s, (decide (0 < countStatus
      (results.map fun r => statusOnly (effectiveStatus db r observedAt)) s)).toNat =
        (hasStatus db results observedAt s).toNat := fun s => by
    rw [Bool.decide_congr (countStatus_pos db results observedAt s), Bool.decide_eq_true]
  rcases hstatus with rfl | rfl | rfl
  · exact hcount .fail
  · exact hcount .review
  · exact hcount .unknown

theorem dealsWith_ruleDealCounts {status : ResultStatus} (hstatus : status.Counted)
    (statuses : List ResultStatus) :
    (ruleDealCounts statuses).dealsWith status = (statuses.contains status).toNat := by
  rcases hstatus with rfl | rfl | rfl <;> rfl

/-! ## Sums -/

section Sums

variable {α β : Type*}

theorem sum_map_filter (p : α → Bool) (f : α → ℕ) (as : List α) :
    ((as.filter p).map f).sum = (as.map fun a => if p a then f a else 0).sum := by
  induction as with
  | nil => rfl
  | cons a as ih =>
    rw [List.filter_cons, List.map_cons, List.sum_cons, ← ih]
    split_ifs
    · rw [List.map_cons, List.sum_cons]
    · rw [Nat.zero_add]

theorem sum_map_flatMap (f : α → List β) (g : β → ℕ) (as : List α) :
    ((as.flatMap f).map g).sum = (as.map fun a => ((f a).map g).sum).sum := by
  induction as with
  | nil => rfl
  | cons a as ih =>
    rw [List.flatMap_cons, List.map_append, List.sum_append, ih, List.map_cons, List.sum_cons]

/-- Rows that pass one test and count one for another are counted by both. -/
theorem sum_ite_toNat (p q : α → Bool) (as : List α) :
    (as.map fun a => if p a then (q a).toNat else 0).sum = (as.filter fun a => p a && q a).length := by
  induction as with
  | nil => rfl
  | cons a as ih =>
    rw [List.map_cons, List.sum_cons, ih, List.filter_cons]
    rcases p a with _ | _ <;> rcases q a with _ | _ <;> simp [Nat.add_comm]

/-- A loop whose steps keep an invariant and add to a size adds the sum. -/
theorem foldl_sum (inv : β → Prop) (size : β → ℕ) (δ : α → ℕ) (step : β → α → β) (as : List α)
    (hstep : ∀ b, ∀ a ∈ as, inv b → inv (step b a) ∧ size (step b a) = size b + δ a) {b : β} (hb : inv b) :
    inv (as.foldl step b) ∧ size (as.foldl step b) = size b + (as.map δ).sum := by
  induction as generalizing b with
  | nil => exact ⟨hb, rfl⟩
  | cons a as ih =>
    obtain ⟨hb', hsize⟩ := hstep b a List.mem_cons_self hb
    obtain ⟨hinv, hsum⟩ := ih (fun b a ha => hstep b a (List.mem_cons_of_mem _ ha)) hb'
    refine ⟨hinv, ?_⟩
    rw [List.foldl_cons, hsum, hsize, List.map_cons, List.sum_cons, Nat.add_assoc]

end Sums

theorem byFailedDeals_perm {ρ : Type} (compareRu : String → String → ℤ) (failed : ρ → ℕ) (name : ρ → String)
    (rows : List ρ) : (byFailedDeals compareRu failed name rows).Perm rows :=
  List.perm_insertionSort _ rows

/-! ## The managers -/

theorem Department.code_free (department : Department) : JoinedKey.Free ':' department.code := by
  cases department <;> decide

theorem Department.code_injective : Function.Injective Department.code := by
  intro a b h
  cases a <;> cases b <;> first | rfl | exact absurd h (by decide)

/-- The key tells managers and departments apart, as no manager has an empty key. -/
theorem managerKey_inj {d d' : Department} {m m' : Option String} (hm : m ≠ some "") (hm' : m' ≠ some "")
    (h : managerKey d m = managerKey d' m') : d = d' ∧ m = m' := by
  obtain ⟨hd, hname⟩ := JoinedKey.colon_inj_left d.code_free d'.code_free h
  refine ⟨Department.code_injective hd, ?_⟩
  rcases m with _ | m <;> rcases m' with _ | m'
  · rfl
  · exact absurd (congrArg some hname.symm) hm'
  · exact absurd (congrArg some hname) hm
  · exact congrArg some hname

/-- The rows of the managers, each under its key. -/
structure ManagersOk (managers : List (String × ManagerRow)) : Prop where
  nodup : (managers.map Prod.fst).Nodup
  key : ∀ e ∈ managers, e.1 = managerKey e.2.department e.2.managerId
  named : ∀ e ∈ managers, e.2.managerId ≠ some ""

section Managers

variable (db : Db) (query : DealsQuery) (status : ResultStatus)

/-- What a row adds to the count of a query. -/
def ManagerRow.weight (row : ManagerRow) : ℕ :=
  if query.selects row.managerId row.department then row.counts.dealsWith status else 0

/-- What an observation adds to the count of a query. -/
def addedDeals (o : Observation) : ℕ :=
  if query.selects o.managerId o.department then
    (hasStatus db (db.resultsOf o) o.observedAt status).toNat else 0

variable {db query status}

/-- The row of an observation is that of its manager and department. -/
theorem ManagersOk.row {managers : List (String × ManagerRow)} (h : ManagersOk managers) {o : Observation}
    (ho : o.managerId ≠ some "") :
    ((JsMap.get? (managerKey o.department o.managerId) managers).getD (newManagerRow o)).managerId =
        o.managerId ∧
      ((JsMap.get? (managerKey o.department o.managerId) managers).getD (newManagerRow o)).department =
        o.department := by
  rcases hrow : JsMap.get? (managerKey o.department o.managerId) managers with _ | row
  · exact ⟨rfl, rfl⟩
  · have hmem := JsMap.mem_of_get? hrow
    obtain ⟨hd, hm⟩ := managerKey_inj ho (h.named _ hmem) (h.key _ hmem)
    exact ⟨hm.symm, hd.symm⟩

theorem ManagersOk.add {managers : List (String × ManagerRow)} (h : ManagersOk managers) {o : Observation}
    (ho : o.managerId ≠ some "") : ManagersOk (addManager db managers o) := by
  obtain ⟨hm, hd⟩ := h.row ho
  refine ⟨JsMap.nodup_keys_set h.nodup, fun e he => ?_, fun e he => ?_⟩
  · rcases JsMap.mem_of_mem_set he with rfl | he
    · show managerKey _ _ = managerKey (ManagerRow.department _) (ManagerRow.managerId _)
      rw [hm, hd]
    · exact h.key e he
  · rcases JsMap.mem_of_mem_set he with rfl | he
    · exact fun hempty => ho (hm.symm.trans hempty)
    · exact h.named e he

theorem addManager_sum {managers : List (String × ManagerRow)} (h : ManagersOk managers)
    (hstatus : status.Counted) {o : Observation} (ho : o.managerId ≠ some "") :
    ((addManager db managers o).map fun e => e.2.weight query status).sum =
      (managers.map fun e => e.2.weight query status).sum + addedDeals db query status o := by
  obtain ⟨hm, hd⟩ := h.row ho
  refine JsMap.sum_upsert (fun e : String × ManagerRow => e.2.weight query status) (newManagerRow o)
    (fun manager => { manager with
      counts := addControlCounts manager.counts (effectiveCounts db (db.resultsOf o) o.observedAt) }) ?_ ?_
  · show (if _ then emptyControlCounts.dealsWith status else 0) = 0
    rw [dealsWith_empty, ite_self]
  · dsimp only [ManagerRow.weight]
    rw [hm, hd, addedDeals, dealsWith_add, dealsWith_effectiveCounts hstatus]
    split_ifs <;> rfl

end Managers

/-! ## The rules -/

theorem addCell_keys (o : Observation) (value : RuleDealCounts) (cells : List RuleCell)
    (h : (cells.map fun cell => (cell.managerId, cell.department)).Nodup) :
    ((addCell o value cells).map fun cell => (cell.managerId, cell.department)).Nodup ∧
      ∀ pair ∈ (addCell o value cells).map fun cell => (cell.managerId, cell.department),
        pair = (o.managerId, o.department) ∨ pair ∈ cells.map fun cell => (cell.managerId, cell.department) := by
  induction cells with
  | nil =>
    refine ⟨List.nodup_singleton _, fun pair hpair => Or.inl (List.mem_singleton.1 hpair)⟩
  | cons cell cells ih =>
    rw [List.map_cons, List.nodup_cons] at h
    obtain ⟨hnodup, hsub⟩ := ih h.2
    rw [addCell]
    by_cases hcell : cell.managerId = o.managerId ∧ cell.department = o.department
    · rw [if_pos hcell]
      exact ⟨List.nodup_cons.2 h, fun pair hpair => Or.inr hpair⟩
    · rw [if_neg hcell]
      refine ⟨List.nodup_cons.2 ⟨fun hmem => ?_, hnodup⟩, fun pair hpair => ?_⟩
      · rcases hsub _ hmem with heq | hold
        · exact hcell ⟨congrArg Prod.fst heq, congrArg Prod.snd heq⟩
        · exact h.1 hold
      · rcases List.mem_cons.1 hpair with rfl | hpair
        · exact Or.inr List.mem_cons_self
        · exact (hsub pair hpair).imp_right (List.mem_cons_of_mem _)

/-- The rules, each under its code, with one cell for a manager and a department. -/
structure RulesOk (rules : List (String × RuleBreakdown)) : Prop where
  nodup : (rules.map Prod.fst).Nodup
  key : ∀ e ∈ rules, e.1 = e.2.ruleCode
  cells : ∀ e ∈ rules, (e.2.byManager.map fun cell => (cell.managerId, cell.department)).Nodup

section Rules

variable (query : DealsQuery) (ruleCode : String) (status : ResultStatus)

/-- What a cell adds to the count of a query. -/
def RuleCell.weight (cell : RuleCell) : ℕ :=
  if query.selects cell.managerId cell.department then cell.counts.dealsWith status else 0

/-- What a rule adds to the count of a query for the rule `ruleCode`. -/
def RuleBreakdown.weight (rule : RuleBreakdown) : ℕ :=
  if rule.ruleCode = ruleCode then (rule.byManager.map (·.weight query status)).sum else 0

variable {query ruleCode status}

theorem addCell_sum (o : Observation) (value : RuleDealCounts) (cells : List RuleCell) :
    ((addCell o value cells).map (·.weight query status)).sum =
      (cells.map (·.weight query status)).sum +
        if query.selects o.managerId o.department then value.dealsWith status else 0 := by
  induction cells with
  | nil =>
    show (if _ then (RuleDealCounts.add {} value).dealsWith status else 0) + 0 = 0 + _
    rw [RuleDealCounts.dealsWith_add, RuleDealCounts.dealsWith_empty, Nat.zero_add, Nat.zero_add,
      Nat.add_zero]
  | cons cell cells ih =>
    rw [addCell]
    by_cases hcell : cell.managerId = o.managerId ∧ cell.department = o.department
    · rw [if_pos hcell, List.map_cons, List.map_cons, List.sum_cons, List.sum_cons, ← hcell.1, ← hcell.2]
      dsimp only [RuleCell.weight]
      rw [RuleDealCounts.dealsWith_add]
      split_ifs <;> omega
    · rw [if_neg hcell, List.map_cons, List.map_cons, List.sum_cons, List.sum_cons, ih, Nat.add_assoc]

/-- The rule under a code has that code. -/
theorem RulesOk.rule {rules : List (String × RuleBreakdown)} (h : RulesOk rules) (code name : String) :
    ((JsMap.get? code rules).getD { ruleCode := code, ruleName := name }).ruleCode = code ∧
      (((JsMap.get? code rules).getD { ruleCode := code, ruleName := name }).byManager.map
        fun cell => (cell.managerId, cell.department)).Nodup := by
  rcases hrule : JsMap.get? code rules with _ | rule
  · exact ⟨rfl, List.nodup_nil⟩
  · have hmem := JsMap.mem_of_get? hrule
    exact ⟨(h.key _ hmem).symm, h.cells _ hmem⟩

theorem RulesOk.add {rules : List (String × RuleBreakdown)} (h : RulesOk rules) (o : Observation)
    (item : String × String × List ResultStatus) : RulesOk (addRule o rules item) := by
  obtain ⟨hcode, hcells⟩ := h.rule item.1 item.2.1
  refine ⟨JsMap.nodup_keys_set h.nodup, fun e he => ?_, fun e he => ?_⟩
  · rcases JsMap.mem_of_mem_set he with rfl | he
    · exact hcode.symm
    · exact h.key e he
  · rcases JsMap.mem_of_mem_set he with rfl | he
    · exact (addCell_keys o _ _ hcells).1
    · exact h.cells e he

theorem addRule_sum {rules : List (String × RuleBreakdown)} (h : RulesOk rules) (hstatus : status.Counted)
    (o : Observation) (item : String × String × List ResultStatus) :
    ((addRule o rules item).map fun e => e.2.weight query ruleCode status).sum =
      (rules.map fun e => e.2.weight query ruleCode status).sum +
        if item.1 = ruleCode then
          if query.selects o.managerId o.department then (item.2.2.contains status).toNat else 0
        else 0 := by
  have hcode := (h.rule item.1 item.2.1).1
  refine JsMap.sum_upsert (fun e : String × RuleBreakdown => e.2.weight query ruleCode status)
    { ruleCode := item.1, ruleName := item.2.1 } (fun rule => { rule with
      counts := rule.counts.add (ruleDealCounts item.2.2)
      byManager := addCell o (ruleDealCounts item.2.2) rule.byManager }) ?_ ?_
  · show (if _ then ((List.nil : List RuleCell).map _).sum else 0) = 0
    rw [List.map_nil, List.sum_nil, ite_self]
  · dsimp only [RuleBreakdown.weight]
    rw [hcode, addCell_sum, dealsWith_ruleDealCounts hstatus]
    split_ifs <;> rfl

/-! ### The statuses of a rule in an observation -/

/-- The statuses that are kept for a rule. -/
def statusesOf (ruleCode : String) (rules : List (String × String × List ResultStatus)) :
    List ResultStatus :=
  ((JsMap.get? ruleCode rules).map (·.2)).getD []

theorem statusesByRule_nodup (db : Db) (o : Observation) : ((statusesByRule db o).map Prod.fst).Nodup := by
  have hloop : ∀ (results : List ResultRow) (rules : List (String × String × List ResultStatus)),
      (rules.map Prod.fst).Nodup →
        ((results.foldl (addStatus db o.observedAt) rules).map Prod.fst).Nodup := by
    intro results
    induction results with
    | nil => intro rules h; exact h
    | cons r results ih => intro rules h; exact ih _ (JsMap.nodup_keys_set h)
  exact hloop _ [] List.nodup_nil

theorem statusesOf_addStatus (db : Db) (observedAt : ℤ) (ruleCode : String)
    (rules : List (String × String × List ResultStatus)) (r : ResultRow) :
    statusesOf ruleCode (addStatus db observedAt rules r) = statusesOf ruleCode rules ++
      if r.ruleCode = ruleCode then [effectiveStatus db r observedAt] else [] := by
  rw [statusesOf, addStatus, JsMap.get?_set]
  by_cases hcode : r.ruleCode = ruleCode
  · rw [if_pos hcode, if_pos hcode, hcode, statusesOf]
    rcases JsMap.get? ruleCode rules with _ | item <;> rfl
  · rw [if_neg hcode, if_neg hcode, List.append_nil, statusesOf]

/-- The statuses of a rule are those of its results, in order. -/
theorem statusesOf_statusesByRule (db : Db) (o : Observation) (ruleCode : String) :
    statusesOf ruleCode (statusesByRule db o) =
      ((db.resultsOf o).filter (·.ruleCode = ruleCode)).map (effectiveStatus db · o.observedAt) := by
  have hloop : ∀ (results : List ResultRow) (rules : List (String × String × List ResultStatus)),
      statusesOf ruleCode (results.foldl (addStatus db o.observedAt) rules) =
        statusesOf ruleCode rules ++
          (results.filter (·.ruleCode = ruleCode)).map (effectiveStatus db · o.observedAt) := by
    intro results
    induction results with
    | nil => intro rules; rw [List.filter_nil, List.map_nil, List.append_nil]; rfl
    | cons r results ih =>
      intro rules
      rw [List.foldl_cons, ih, statusesOf_addStatus, List.append_assoc, List.filter_cons]
      by_cases hcode : r.ruleCode = ruleCode
      · rw [if_pos hcode, if_pos (decide_eq_true hcode), List.map_cons, List.singleton_append]
      · rw [if_neg hcode, if_neg (by simpa using hcode), List.nil_append]
  exact hloop _ []

/-- What an observation adds to the count of a query for a rule. -/
def addedRuleDeals (db : Db) (query : DealsQuery) (ruleCode : String) (status : ResultStatus)
    (o : Observation) : ℕ :=
  if query.selects o.managerId o.department then
    (hasStatus db ((db.resultsOf o).filter (·.ruleCode = ruleCode)) o.observedAt status).toNat else 0

/-- The loop over the rules of an observation adds what the observation adds. -/
theorem addRules_spec {rules : List (String × RuleBreakdown)} (h : RulesOk rules)
    (hstatus : status.Counted) (db : Db) (o : Observation) :
    RulesOk (addRules db rules o) ∧
      ((addRules db rules o).map fun e => e.2.weight query ruleCode status).sum =
        (rules.map fun e => e.2.weight query ruleCode status).sum +
          addedRuleDeals db query ruleCode status o := by
  obtain ⟨hok, hsum⟩ := foldl_sum RulesOk
    (fun rules => (rules.map fun e => e.2.weight query ruleCode status).sum) _ (addRule o)
    (statusesByRule db o) (fun rules item _ h => ⟨h.add o item, addRule_sum h hstatus o item⟩) h
  refine ⟨hok, hsum.trans (congrArg _ ?_)⟩
  have hcontains : hasStatus db ((db.resultsOf o).filter (·.ruleCode = ruleCode)) o.observedAt status =
      (statusesOf ruleCode (statusesByRule db o)).contains status := by
    rw [statusesOf_statusesByRule, hasStatus, List.contains_eq_any_beq, List.any_map]
    congr 1
    funext r
    exact decide_eq_decide.2 eq_comm
  rw [JsMap.sum_of_key (g := fun item : String × List ResultStatus =>
    if query.selects o.managerId o.department then (item.2.contains status).toNat else 0)
    (statusesByRule_nodup db o) ruleCode, addedRuleDeals, hcontains, statusesOf]
  rcases JsMap.get? ruleCode (statusesByRule db o) with _ | item
  · exact (ite_self _).symm
  · rfl

end Rules

/-! ## The count of a query -/

/-- An observation that the query is about: in the run, seen by the viewer, of the manager and the
department, with a result of the rule that has the status. -/
structure Matches (access : Access) (runId : String) (query : DealsQuery) (status : ResultStatus) (db : Db)
    (o : Observation) : Prop where
  run : o.runId = runId
  seen : access.sees o = true
  selected : query.selects o.managerId o.department = true
  result : ∃ r ∈ db.results, r.observationId = o.id ∧
    (∀ ruleCode, given query.ruleCode = some ruleCode → r.ruleCode = ruleCode) ∧
      effectiveStatus db r o.observedAt = status

/-- The summary has one row for a manager and a department, and one cell in each rule. -/
structure Summary.Keyed (s : Summary) : Prop where
  managers : (s.managers.map fun row => (row.managerId, row.department)).Nodup
  rules : (s.ruleBreakdown.map (·.ruleCode)).Nodup
  cells : ∀ rule ∈ s.ruleBreakdown, (rule.byManager.map fun cell => (cell.managerId, cell.department)).Nodup

section Summary

variable {db : Db} (hnamed : ∀ o ∈ db.observations, o.managerId ≠ some "")
  (compareRu : String → String → ℤ) (access : Access) (runId : String)

/-- The observations that the summary reads. -/
def summarized (access : Access) (runId : String) (db : Db) : List Observation :=
  db.observations.filter fun o => o.runId = runId && access.sees o

include hnamed in
/-- The rows of the managers hold what the observations add. -/
theorem managers_spec {status : ResultStatus} (hstatus : status.Counted) (query : DealsQuery) :
    ManagersOk ((summarized access runId db).foldl (addManager db) []) ∧
      (((summarized access runId db).foldl (addManager db) []).map fun e => e.2.weight query status).sum =
        ((summarized access runId db).map (addedDeals db query status)).sum := by
  obtain ⟨hok, hsum⟩ := foldl_sum ManagersOk
    (fun managers => (managers.map fun e => e.2.weight query status).sum) (addedDeals db query status)
    (addManager db) (summarized access runId db)
    (fun managers o ho h => ⟨h.add (hnamed o (List.mem_filter.1 ho).1),
      addManager_sum h hstatus (hnamed o (List.mem_filter.1 ho).1)⟩)
    (b := []) ⟨List.nodup_nil, nofun, nofun⟩
  exact ⟨hok, hsum.trans (Nat.zero_add _)⟩

/-- The rules hold what the observations add. -/
theorem rules_spec {status : ResultStatus} (hstatus : status.Counted) (query : DealsQuery)
    (ruleCode : String) :
    RulesOk ((summarized access runId db).foldl (addRules db) []) ∧
      (((summarized access runId db).foldl (addRules db) []).map fun e =>
          e.2.weight query ruleCode status).sum =
        ((summarized access runId db).map (addedRuleDeals db query ruleCode status)).sum := by
  obtain ⟨hok, hsum⟩ := foldl_sum RulesOk
    (fun rules => (rules.map fun e => e.2.weight query ruleCode status).sum)
    (addedRuleDeals db query ruleCode status) (addRules db) (summarized access runId db)
    (fun rules o _ h => addRules_spec h hstatus db o) (b := []) ⟨List.nodup_nil, nofun, nofun⟩
  exact ⟨hok, hsum.trans (Nat.zero_add _)⟩

include hnamed in
theorem summary_keyed : (summary compareRu access runId db).Keyed := by
  have hmanagers := (managers_spec hnamed access runId (Or.inl rfl) {}).1
  have hrules : RulesOk ((summarized access runId db).foldl (addRules db) []) :=
    (rules_spec access runId (Or.inl rfl) {} "").1
  refine ⟨?_, ?_, fun rule hrule => ?_⟩
  · refine (((byFailedDeals_perm compareRu _ _ _).map _).nodup_iff).2 ?_
    rw [JsMap.values, List.map_map]
    refine List.Nodup.of_map (fun pair : Option String × Department => managerKey pair.2 pair.1) ?_
    rw [List.map_map]
    refine (List.map_congr_left fun e he => ?_) ▸ hmanagers.nodup
    exact (hmanagers.key e he)
  · refine (((byFailedDeals_perm compareRu _ _ _).map _).nodup_iff).2 ?_
    rw [JsMap.values, List.map_map]
    refine (List.map_congr_left fun e he => ?_) ▸ hrules.nodup
    exact hrules.key e he
  · obtain ⟨e, he, rfl⟩ := List.mem_map.1 ((byFailedDeals_perm compareRu _ _ _).mem_iff.1 hrule)
    exact hrules.cells e he

include hnamed in
/-- The count of a query is the number of the observations it is about. -/
theorem summary_count {status : ResultStatus} (hstatus : status.Counted) (query : DealsQuery) :
    (summary compareRu access runId db).count query status =
      ((summarized access runId db).filter fun o => query.selects o.managerId o.department &&
        hasStatus db ((db.resultsOf o).filter fun r => (given query.ruleCode).all (r.ruleCode = ·))
          o.observedAt status).length := by
  rw [← sum_ite_toNat, Summary.count]
  rcases given query.ruleCode with _ | ruleCode
  · have hrows : (summary compareRu access runId db).managers.Perm
        (((summarized access runId db).foldl (addManager db) []).map Prod.snd) := byFailedDeals_perm ..
    calc (((summary compareRu access runId db).rows query).map fun row => row.counts.dealsWith status).sum
        = ((summary compareRu access runId db).managers.map (·.weight query status)).sum :=
          sum_map_filter _ _ _
      _ = ((summarized access runId db).map (addedDeals db query status)).sum := by
          rw [(hrows.map _).sum_eq, List.map_map]
          exact (managers_spec hnamed access runId hstatus query).2
      _ = _ := by
          simp only [Option.all_none, List.filter_true]
          rfl
  · have hrules : (summary compareRu access runId db).ruleBreakdown.Perm
        (((summarized access runId db).foldl (addRules db) []).map Prod.snd) := byFailedDeals_perm ..
    calc (((summary compareRu access runId db).cells query ruleCode).map fun cell =>
          cell.counts.dealsWith status).sum
        = ((summary compareRu access runId db).ruleBreakdown.map
            (·.weight query ruleCode status)).sum := by
          rw [Summary.cells, sum_map_filter, sum_map_flatMap, sum_map_filter]
          simp only [decide_eq_true_eq]
          rfl
      _ = ((summarized access runId db).map (addedRuleDeals db query ruleCode status)).sum := by
          rw [(hrules.map _).sum_eq, List.map_map]
          exact (rules_spec access runId hstatus query ruleCode).2
      _ = _ := rfl

end Summary

/-! ## The list of a status -/

theorem ResultStatus.code_injective : Function.Injective ResultStatus.code := by
  intro a b h
  cases a <;> cases b <;> first | rfl | exact absurd h (by decide)

/-- The list of a status shows the observations that have it. -/
theorem shows_eq {status : ResultStatus} (hstatus : status.Counted) {query : DealsQuery}
    (hquery : query.status = some status.code) (db : Db) (o : Observation) :
    query.shows db o =
      hasStatus db ((db.resultsOf o).filter fun r => (given query.ruleCode).all (r.ruleCode = ·))
        o.observedAt status := by
  have hgiven : given query.status = some status.code := by
    rw [hquery]
    rcases hstatus with rfl | rfl | rfl <;> rfl
  have hpass : ¬(status.code = "PASS" ∧ given query.ruleCode = none) := by
    rcases hstatus with rfl | rfl | rfl <;> exact fun h => absurd h.1 (by decide)
  have hany : ∀ results : List ResultRow, ((results.map fun r =>
      (r, effectiveStatus db r o.observedAt)).any fun r => r.2.code = status.code) =
        hasStatus db results o.observedAt status := by
    intro results
    rw [List.any_map, hasStatus]
    congr 1
    funext r
    exact decide_eq_decide.2 ResultStatus.code_injective.eq_iff
  have hmatching : ((publicObservation db o).results.filter fun r =>
      (given query.ruleCode).all (r.1.ruleCode = ·)) =
        ((db.resultsOf o).filter fun r => (given query.ruleCode).all (r.ruleCode = ·)).map fun r =>
          (r, effectiveStatus db r o.observedAt) := List.filter_map ..
  rw [DealsQuery.shows, DealsQuery.accepts, hmatching, hgiven]
  dsimp only
  rw [if_neg hpass, hany]
  -- A list with the status is not empty, so the test for a result of the rule adds nothing.
  generalize ((db.resultsOf o).filter fun r => (given query.ruleCode).all (r.ruleCode = ·)) = matching
  rcases matching with _ | ⟨r, matching⟩
  · exact Bool.and_false _
  · rw [List.map_cons, List.isEmpty_cons, Bool.not_false, Bool.or_true, Bool.true_and]

theorem hasStatus_iff {status : ResultStatus} (query : DealsQuery) (db : Db) (o : Observation) :
    hasStatus db ((db.resultsOf o).filter fun r => (given query.ruleCode).all (r.ruleCode = ·))
        o.observedAt status = true ↔
      ∃ r ∈ db.results, r.observationId = o.id ∧
        (∀ ruleCode, given query.ruleCode = some ruleCode → r.ruleCode = ruleCode) ∧
          effectiveStatus db r o.observedAt = status := by
  rw [hasStatus, List.any_eq_true]
  simp only [Db.resultsOf, List.mem_filter, Option.all_eq_true, decide_eq_true_eq, and_assoc]

/-- The rows of the list are those that the query is about. -/
theorem listedRows_eq {status : ResultStatus} (hstatus : status.Counted) {query : DealsQuery}
    (hquery : query.status = some status.code) (access : Access) (runId : String) (db : Db) :
    listedRows access runId query db =
      (summarized access runId db).filter fun o => query.selects o.managerId o.department &&
        hasStatus db ((db.resultsOf o).filter fun r => (given query.ruleCode).all (r.ruleCode = ·))
          o.observedAt status := by
  rw [listedRows, summarized, List.filter_filter, List.filter_filter]
  refine List.filter_congr fun o ho => ?_
  rw [shows_eq hstatus hquery, DealsQuery.reads, Bool.eq_iff_iff]
  simp only [Bool.and_eq_true]
  constructor
  · rintro ⟨hshown, ⟨hscope, hselected⟩, -⟩
    exact ⟨⟨hselected, hshown⟩, hscope⟩
  · rintro ⟨⟨hselected, hshown⟩, hscope⟩
    refine ⟨hshown, ⟨hscope, hselected⟩, ?_⟩
    -- A result of the rule that has the status is a result of the rule.
    obtain ⟨r, hr, hobservation, hrule, -⟩ := (hasStatus_iff query db o).1 hshown
    refine (Option.all_eq_true _ _).2 fun ruleCode hcode => List.any_eq_true.2 ⟨r, hr, ?_⟩
    rw [Bool.and_eq_true, decide_eq_true_eq, decide_eq_true_eq]
    exact ⟨hobservation, hrule ruleCode hcode⟩

theorem mem_listedRows {status : ResultStatus} (hstatus : status.Counted) {query : DealsQuery}
    (hquery : query.status = some status.code) {access : Access} {runId : String} {db : Db}
    {o : Observation} : o ∈ listedRows access runId query db ↔
      o ∈ db.observations ∧ Matches access runId query status db o := by
  rw [listedRows_eq hstatus hquery, List.mem_filter, summarized, List.mem_filter]
  simp only [Bool.and_eq_true, decide_eq_true_eq, hasStatus_iff]
  constructor
  · rintro ⟨⟨ho, hrun, hseen⟩, hselected, hresult⟩
    exact ⟨ho, hrun, hseen, hselected, hresult⟩
  · rintro ⟨ho, h⟩
    exact ⟨⟨ho, h.run, h.seen⟩, h.selected, h.result⟩

/-! ## The theorem -/

/-- A stored report: the observations have keys, and a manager is none or has a key. -/
structure SavedReport where
  db : Db
  keys : HasKeys db.observations
  named : ∀ o ∈ db.observations, o.managerId ≠ some ""

/-- **The list and the summary agree.** For every stored report, viewer, manager, department and rule
and each of the statuses FAIL, REVIEW and UNKNOWN: when the first call of `deals` answers, following
`nextCursor` until it is null ends, and returns the observations of the query, each once and in the
order of their ids; there are as many as the summary counts, in the one row of the manager and
department, or in the one cell of the rule. -/
theorem listing_agrees (report : SavedReport) (requestedBy : String → Option String)
    (compareRu : String → String → ℤ) (access : Access) (runId : String) (query : DealsQuery)
    (status : ResultStatus) (hstatus : status.Counted) (hquery : query.status = some status.code)
    (first : DealsPage) (hfirst : dealsFrom requestedBy access runId query report.db none = .ok first) :
    ∃ items s, FollowsCursor (dealsFrom requestedBy access runId query report.db) none items ∧
      (∀ items', FollowsCursor (dealsFrom requestedBy access runId query report.db) none items' →
        items' = items) ∧
      (items.Pairwise fun a b => a.observation.id < b.observation.id) ∧
      (∀ view, view ∈ items ↔ ∃ o ∈ report.db.observations,
        Matches access runId query status report.db o ∧ view = publicObservation report.db o) ∧
      Service.run requestedBy compareRu access runId report.db = .ok s ∧ s.Keyed ∧
      items.length = s.count query status := by
  obtain ⟨db, hkeys, hnamed⟩ := report
  have hvisible : visibleRun requestedBy access runId db = true := by
    by_contra hhidden
    rw [dealsFrom, Service.deals, Bool.eq_false_iff.2 hhidden] at hfirst
    cases hfirst
  have haccepted : query.refusal = none := by
    rw [dealsFrom, Service.deals, hvisible] at hfirst
    rcases hrefusal : query.refusal with _ | e
    · rfl
    · have hcursor : DealsQuery.refusal { query with cursor := none } = some e := hrefusal
      rw [hcursor] at hfirst
      cases hfirst
  have hfollows := follows_rest hkeys hvisible haccepted none fun _ h => by cases h
  refine ⟨_, summary compareRu access runId db, hfollows, fun items' h => h.unique hfollows, ?_, ?_, ?_,
    summary_keyed hnamed compareRu access runId, ?_⟩
  · exact List.pairwise_map.2 (Paging.rest_strict (hkeys.listedRows access runId query).nodup none)
  · intro view
    rw [List.mem_map]
    constructor
    · rintro ⟨o, ho, rfl⟩
      obtain ⟨hmem, hmatches⟩ := (mem_listedRows hstatus hquery).1 (Paging.mem_rest.1 ho).1
      exact ⟨o, hmem, hmatches, rfl⟩
    · rintro ⟨o, ho, hmatches, rfl⟩
      exact ⟨o, Paging.mem_rest.2 ⟨(mem_listedRows hstatus hquery).2 ⟨ho, hmatches⟩, rfl⟩, rfl⟩
  · rw [Service.run, if_pos hvisible]
  · rw [summary_count hnamed compareRu access runId hstatus query, ← listedRows_eq hstatus hquery,
      List.length_map]
    have hcount := Paging.countUpTo_add_rest Observation.id none (listedRows access runId query db)
    rw [Paging.countUpTo_none, Nat.zero_add] at hcount
    exact hcount

namespace Sample

/-- A violation that a run found. -/
def reported : Db :=
  (Run.run (step environment) {}
    [.queue [run "run1" 1000], persist "run1" 1000 [task ""] [textResult (task "") .fail]]).getD {}

def report : SavedReport where
  db := reported
  keys := ⟨by decide +kernel, by decide +kernel⟩
  named := by decide +kernel

/-- The failed texts of the manager in sales. -/
def failedTexts : DealsQuery where
  managerId := some "manager"
  department := some "sales"
  status := some "FAIL"
  ruleCode := some RuleCode.taskText.code

end Sample

/-- The one violation is listed. -/
theorem listing_agrees_sample :
    ∃ items, FollowsCursor
        (dealsFrom (fun _ => none) Sample.owner "run1" Sample.failedTexts Sample.report.db) none items ∧
      items.length = 1 := by
  have hvisible : visibleRun (fun _ => none) Sample.owner "run1" Sample.report.db = true := by
    decide +kernel
  have haccepted : Sample.failedTexts.refusal = none := by decide +kernel
  have hcursor : Paging.OnRow Observation.id none
      (listedRows Sample.owner "run1" Sample.failedTexts Sample.report.db) := fun _ h => nomatch h
  obtain ⟨items, s, hfollows, -, -, -, hrun, -, hcount⟩ := listing_agrees Sample.report (fun _ => none)
    (fun _ _ => 0) Sample.owner "run1" Sample.failedTexts .fail (Or.inl rfl) rfl _
    (deals_eq_page Sample.report.keys hvisible haccepted hcursor)
  rw [Service.run, if_pos hvisible] at hrun
  obtain rfl := Except.ok.inj hrun
  refine ⟨items, hfollows, hcount.trans ?_⟩
  decide +kernel

end AmoAnalytics.CrmControl
