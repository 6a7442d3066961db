import AmoAnalytics.Reports.StageSuccess

/-!
# Observations of the terminal deals

What a deal adds to a statistic is one observation, except that with several ungrouped stages it adds one for each of
them to the statistics over all stages. The share of a key is that of the won deals among the deals that add to it.
-/

namespace AmoAnalytics.Reports.StageSuccess

/-! ## What a deal adds -/

section Observations

variable {lower : JsString → JsString} {db : Database} {options : Options} {terminal : TerminalEntry} {key : StatKey}

/-- The configured stages of the pipelines asked for. -/
def countedStages (db : Database) (options : Options) : List String := (stageIds options).filter (isCounted db options)

/-- The observations a deal adds to a key. -/
def observations (db : Database) (options : Options) (terminal : TerminalEntry) (key : StatKey) : ℕ :=
  (additions db options terminal).countP fun addition => addition.1 = key

/-- The statistics of its manager and of all managers concern a deal. -/
def Concerns (terminal : TerminalEntry) (manager : Manager) : Prop :=
  manager = .all ∨ manager = .of terminal.responsibleId

instance (manager : Manager) : Decidable (Concerns terminal manager) := inferInstanceAs (Decidable (_ ∨ _))

/-- The observations of a deal that is counted, by what is told apart. -/
def weight (db : Database) (options : Options) (scope : Scope) : ℕ :=
  if options.groupStageIds then
    match scope with
    | .stage _ => 0
    | .metric | .all => 1
  else
    match scope with
    | .metric => 0
    | .stage id => if id ∈ countedStages db options then 1 else 0
    | .all => (countedStages db options).length

theorem nodup_countedStages : (countedStages db options).Nodup :=
  List.Nodup.filter _ (show (stageIds options).Nodup from JsMap.nodup_keys_ofEntries _)

/-- A deal adds each of its four keys once. -/
theorem count_keysOf (scope : Scope) : (keysOf scope terminal).count key =
    if Concerns terminal key.manager then (if scope = key.scope then 1 else 0) + if .all = key.scope then 1 else 0
    else 0 := by
  obtain ⟨manager, keyScope⟩ := key
  simp only [keysOf, List.count_cons, List.count_nil, beq_iff_eq, StatKey.mk.injEq]
  by_cases hall : manager = .all
  · subst hall
    rw [if_pos (show Concerns terminal .all from .inl rfl)]
    simp only [reduceCtorEq, false_and, if_false, true_and]
    omega
  · by_cases hof : manager = .of terminal.responsibleId
    · subst hof
      rw [if_pos (show Concerns terminal (.of terminal.responsibleId) from .inr rfl)]
      simp only [reduceCtorEq, false_and, if_false, true_and]
      omega
    · rw [if_neg fun h => hall h.1.symm, if_neg fun h => hof h.1.symm, if_neg fun h => hall h.1.symm,
        if_neg fun h => hof h.1.symm, if_neg (show ¬ Concerns terminal manager from not_or.2 ⟨hall, hof⟩)]

theorem countP_keys (scope : Scope) (win : Bool) :
    ((keysOf scope terminal).map fun key => (key, win)).countP (fun addition => addition.1 = key) =
      if Concerns terminal key.manager then (if scope = key.scope then 1 else 0) + if .all = key.scope then 1 else 0
      else 0 := by
  rw [List.countP_map, ← count_keysOf scope, List.count]
  refine List.countP_congr fun other _ => ?_
  simp

/-- The observations a deal that reached the stages adds over some of them. -/
theorem countP_stages (win : Bool) {stages : List String} (hstages : stages.Nodup) :
    (stages.flatMap fun stageId => (keysOf (.stage stageId) terminal).map fun key => (key, win)).countP
        (fun addition => addition.1 = key) =
      if Concerns terminal key.manager then
        match key.scope with
        | .metric => 0
        | .stage id => if id ∈ stages then 1 else 0
        | .all => stages.length
      else 0 := by
  induction stages with
  | nil => cases key.scope <;> simp
  | cons stageId rest ih =>
    obtain ⟨hnew, hrest⟩ := List.nodup_cons.1 hstages
    rw [List.flatMap_cons, List.countP_append, countP_keys, ih hrest]
    by_cases hconcerns : Concerns terminal key.manager
    · rw [if_pos hconcerns, if_pos hconcerns, if_pos hconcerns]
      cases key.scope with
      | all => simp [add_comm]
      | metric => simp
      | stage id =>
        by_cases hid : stageId = id
        · subst hid
          simp [hnew]
        · simp [hid, Ne.symm hid]
    · rw [if_neg hconcerns, if_neg hconcerns, if_neg hconcerns]

/-- A deal that reached the stages adds what is told apart to the keys that concern it, another one nothing. -/
theorem observations_eq : observations db options terminal key =
    if probabilityStageReached db options terminal ∧ Concerns terminal key.manager then weight db options key.scope
    else 0 := by
  unfold observations additions weight
  by_cases hreached : probabilityStageReached db options terminal = true
  · simp only [hreached, true_and, if_true, Bool.and_true]
    by_cases hgrouped : options.groupStageIds = true
    · rw [if_pos hgrouped, if_pos hgrouped, countP_keys]
      cases key.scope <;> simp
    · have hcounted : ((stageIds options).flatMap fun stageId => if isCounted db options stageId then
          (keysOf (.stage stageId) terminal).map fun key => (key, won options terminal) else []) =
          (countedStages db options).flatMap fun stageId =>
            (keysOf (.stage stageId) terminal).map fun key => (key, won options terminal) := by
        rw [countedStages]
        induction stageIds options with
        | nil => rfl
        | cons stageId rest ih =>
          rw [List.flatMap_cons, ih]
          cases hstage : isCounted db options stageId with
          | true => rw [List.filter_cons_of_pos hstage, List.flatMap_cons, if_pos rfl]
          | false => rw [List.filter_cons_of_neg (by simp [hstage]), if_neg Bool.false_ne_true, List.nil_append]
      rw [if_neg hgrouped, if_neg hgrouped, hcounted, countP_stages _ nodup_countedStages]
  · rw [if_neg (show ¬ (probabilityStageReached db options terminal = true ∧ Concerns terminal key.manager) from
      fun h => hreached h.1)]
    simp [hreached]

/-- A deal adds at most one observation to a key, except to those over several ungrouped stages. -/
theorem observations_le_one
    (hkey : key.scope ≠ .all ∨ options.groupStageIds = true ∨ (countedStages db options).length ≤ 1) :
    observations db options terminal key ≤ 1 := by
  have hweight : weight db options key.scope ≤ 1 := by
    unfold weight
    split_ifs with hgrouped
    · cases key.scope <;> simp
    · cases hscope : key.scope with
      | metric => exact Nat.zero_le 1
      | stage id =>
        dsimp only
        split_ifs <;> simp
      | all => exact (hkey.resolve_left fun h => h hscope).resolve_left hgrouped
  rw [observations_eq]
  split_ifs
  · exact hweight
  · exact Nat.zero_le 1

/-! ## The statistics -/

/-- The statistic of a key after the additions counts them. -/
theorem getStat_collect (adds : List (StatKey × Bool)) :
    getStat (JsMap.collect Prod.fst addTo adds []) key =
      ⟨adds.countP fun addition => addition.1 = key, adds.countP fun addition => addition.1 = key ∧ addition.2⟩ := by
  have hfold : ∀ (rest : List (StatKey × Bool)) (stat : Option Stat),
      (rest.foldl (fun entry addition => some (addTo entry addition)) stat).getD ⟨0, 0⟩ =
        ⟨(stat.getD ⟨0, 0⟩).sample + rest.length, (stat.getD ⟨0, 0⟩).wins + rest.countP Prod.snd⟩ := by
    intro rest
    induction rest with
    | nil => simp
    | cons addition rest ih =>
      intro stat
      rw [List.foldl_cons, ih, List.length_cons, List.countP_cons]
      cases hwin : addition.2 <;> simp [addTo, hwin] <;> omega
  rw [getStat, JsMap.get?_collect, hfold]
  change (⟨0 + _, 0 + _⟩ : Stat) = _
  rw [zero_add, zero_add, List.countP_filter]
  congr 1
  · exact List.countP_eq_length_filter.symm
  · exact List.countP_congr fun addition _ => by simp [and_comm]

/-- The deals that add to a key. -/
def contributors (lower : JsString → JsString) (db : Database) (options : Options) (key : StatKey) :
    List TerminalEntry :=
  (lastTerminals lower db options).filter fun terminal => 0 < observations db options terminal key

/-- Each deal has one terminal entry. -/
theorem nodup_lastTerminals : ((lastTerminals lower db options).map TerminalEntry.dealId).Nodup := by
  have hkeys := JsMap.nodup_keys_ofEntries
    ((terminalEntries lower db options).map fun entry => (entry.dealId, entry))
  have hsame : (lastTerminals lower db options).map TerminalEntry.dealId = (JsMap.ofEntries
      ((terminalEntries lower db options).map fun entry => (entry.dealId, entry))).map Prod.fst := by
    rw [lastTerminals, JsMap.values, List.map_map]
    refine List.map_congr_left fun entry hentry => ?_
    obtain ⟨terminal, -, rfl⟩ := List.mem_map.1 (JsMap.mem_of_mem_ofEntries hentry)
    rfl
  rw [hsame]
  exact hkeys

theorem countP_win (terminal : TerminalEntry) :
    (additions db options terminal).countP (fun addition => addition.1 = key ∧ addition.2) =
      if won options terminal then observations db options terminal key else 0 := by
  have hwin : ∀ addition ∈ additions db options terminal, addition.2 = won options terminal := by
    intro addition haddition
    unfold additions at haddition
    split_ifs at haddition with hgrouped hreached
    · obtain ⟨_, -, rfl⟩ := List.mem_map.1 haddition
      rfl
    · cases haddition
    · obtain ⟨stageId, -, hmem⟩ := List.mem_flatMap.1 haddition
      split_ifs at hmem
      · obtain ⟨_, -, rfl⟩ := List.mem_map.1 hmem
        rfl
      · cases hmem
  unfold observations
  split_ifs with hwon
  · exact List.countP_congr fun addition haddition => by simp [hwin addition haddition, hwon]
  · rw [List.countP_eq_zero]
    intro addition haddition
    simp [hwin addition haddition, hwon]

/-- Where a deal adds at most one observation, a statistic counts the deals that add to it and the won ones. -/
theorem getStat_statistics
    (hkey : key.scope ≠ .all ∨ options.groupStageIds = true ∨ (countedStages db options).length ≤ 1) :
    getStat (statistics lower db options) key =
      ⟨(contributors lower db options key).length,
        ((contributors lower db options key).filter (won options)).length⟩ := by
  have hone : ∀ terminal, observations db options terminal key =
      if 0 < observations db options terminal key then 1 else 0 := by
    intro terminal
    have hle : observations db options terminal key ≤ 1 := observations_le_one hkey
    split_ifs <;> omega
  rw [statistics, getStat_collect, contributors, List.filter_filter]
  generalize lastTerminals lower db options = terminals
  congr 1
  · induction terminals with
    | nil => rfl
    | cons terminal rest ih =>
      rw [List.flatMap_cons, List.countP_append, ih, ← observations, hone]
      split_ifs with hpos
      · rw [List.filter_cons_of_pos (by simpa using hpos), List.length_cons, add_comm]
      · rw [List.filter_cons_of_neg (by simpa using hpos), zero_add]
  · induction terminals with
    | nil => rfl
    | cons terminal rest ih =>
      rw [List.flatMap_cons, List.countP_append, ih, countP_win, hone]
      cases hwon : won options terminal with
      | true =>
        rw [if_pos rfl]
        split_ifs with hpos
        · rw [List.filter_cons_of_pos (by simp [hwon, hpos]), List.length_cons, add_comm]
        · rw [List.filter_cons_of_neg (by simp [hpos]), zero_add]
      | false =>
        rw [if_neg Bool.false_ne_true, List.filter_cons_of_neg (by simp [hwon]), zero_add]

/-! ## Which deals -/

/-- The history of the deal, up to its terminal entry, has one of the stages. -/
def ReachedStage (db : Database) (options : Options) (terminal : TerminalEntry) : Prop :=
  ∃ entry ∈ db.transitions, entry.dealId = terminal.dealId ∧ entry.movedAt ≤ terminal.movedAt ∧
    ∃ stageId ∈ reachedStageIds options, entry.toStageId = stageId ∨ entry.fromStageId = some stageId

/-- A terminal entry is one of the transitions before now. -/
theorem transition_of_lastTerminal (h : terminal ∈ lastTerminals lower db options) :
    (⟨terminal.dealId, terminal.fromStageId, terminal.toStageId, terminal.movedAt⟩ : Transition) ∈ db.transitions ∧
      terminal.movedAt ≤ options.now := by
  obtain ⟨⟨dealId, entry⟩, hentry, rfl⟩ := List.mem_map.1 h
  obtain ⟨found, hfound, heq⟩ := List.mem_map.1 (JsMap.mem_of_mem_ofEntries hentry)
  cases heq
  obtain ⟨transition, htransition, hsome⟩ := List.mem_filterMap.1 hfound
  obtain ⟨deal, -, rfl⟩ := Option.map_eq_some_iff.1 hsome
  rw [List.mem_insertionSort, List.mem_filter, decide_eq_true_eq] at htransition
  exact ⟨htransition.1, htransition.2.2.2⟩

theorem probabilityStageReached_iff (h : terminal ∈ lastTerminals lower db options) :
    probabilityStageReached db options terminal = true ↔
      won options terminal = true ∧ options.inferSuccessAsReached = true ∨ ReachedStage db options terminal := by
  obtain ⟨htransition, hnow⟩ := transition_of_lastTerminal h
  have hfrom : ∀ stage : Option String, stage.any (· ∈ reachedStageIds options) = true ↔
      ∃ stageId ∈ reachedStageIds options, stage = some stageId := by
    intro stage
    cases stage <;> simp
  have hentries : ((dealEntries db options terminal).any fun entry => entry.toStageId ∈ reachedStageIds options ||
      entry.fromStageId.any (· ∈ reachedStageIds options)) = true ↔ ReachedStage db options terminal := by
    rw [List.any_eq_true]
    unfold dealEntries ReachedStage
    simp only [List.mem_filter, List.mem_insertionSort, decide_eq_true_eq, Bool.or_eq_true, hfrom]
    constructor
    · rintro ⟨entry, ⟨⟨hentry, hdeal, -⟩, hmoved⟩, hto | ⟨stageId, hstage, hfrom⟩⟩
      · exact ⟨entry, hentry, hdeal, hmoved, _, hto, .inl rfl⟩
      · exact ⟨entry, hentry, hdeal, hmoved, stageId, hstage, .inr hfrom⟩
    · rintro ⟨entry, hentry, hdeal, hmoved, stageId, hstage, hto | hfrom⟩
      · exact ⟨entry, ⟨⟨hentry, hdeal, hmoved.trans hnow⟩, hmoved⟩, .inl (hto ▸ hstage)⟩
      · exact ⟨entry, ⟨⟨hentry, hdeal, hmoved.trans hnow⟩, hmoved⟩, .inr ⟨stageId, hstage, hfrom⟩⟩
  unfold probabilityStageReached
  rw [Bool.or_eq_true, Bool.or_eq_true, Bool.and_eq_true, hentries, hfrom]
  constructor
  · rintro ((hwon | hreached) | ⟨stageId, hstage, hterminal⟩)
    · exact .inl hwon
    · exact .inr hreached
    · exact .inr ⟨_, htransition, rfl, le_rfl, stageId, hstage, .inr hterminal⟩
  · exact fun h => .inl h

end Observations

/-- A deal that was in stage `a` only before it was won. -/
def firstStageOnly : Database where
  stages := [⟨"a", "p", [], false, []⟩, ⟨"b", "p", [], false, []⟩, ⟨"won", "p", [], false, []⟩]
  transitions := [⟨"deal", none, "a", 1_000⟩, ⟨"deal", some "a", "won", 2_000⟩]
  deals := [⟨"deal", some "manager", none⟩]
  dealKeys := by decide

def twoStages : Options where
  pipelineIds := ["p"]
  stageIds := ["a", "b"]
  successStageByPipelineId := [("p", "won")]
  successStageIdsByPipelineId := []
  groupStageIds := false
  reachedStageIds := []
  inferSuccessAsReached := false
  defaultProbability := 0
  now := 3_000

end AmoAnalytics.Reports.StageSuccess
