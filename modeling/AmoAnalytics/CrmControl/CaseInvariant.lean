import AmoAnalytics.CrmControl.Decisions

/-!
# The invariant of the cases

Every reachable store satisfies `Inv`: identifiers are drawn, the unique indexes hold, and a case
holds its active key exactly while it is live. Each statement of a transaction has one lemma that
keeps the invariant; `inv_step` puts them together.
-/

namespace AmoAnalytics.CrmControl

open Transaction

variable {env : Env} {db db' : Db}

/-! ## The definitions -/

/-- The key of the deal, rule and subject of a case. -/
def CaseRow.key (c : CaseRow) : String := c.dealId ++ ":" ++ c.ruleCode ++ ":" ++ c.subjectId

/-- The case was created by `reviewResult`: only that operation writes such a case key. -/
def ByReview (env : Env) (c : CaseRow) : Prop := ∃ n, c.caseKey = "review:" ++ env.uuid n

/-- The coupling of the status and the active key of a case. -/
structure CaseRow.Coupled (env : Env) (c : CaseRow) : Prop where
  active : ∀ k, c.activeKey = some k → k = c.key ∧ ¬ c.status.Closed
  live : ¬ ByReview env c → ¬ c.status.Closed → c.activeKey = some c.key
  review : ByReview env c → c.activeKey = none

/-- `s` is one of the first `n` identifiers. -/
def Drawn (env : Env) (n : ℕ) (s : String) : Prop := ∃ k < n, s = env.uuid k

/-- The identifiers in a result row are drawn. -/
structure ResultRow.Drawn (env : Env) (n : ℕ) (r : ResultRow) : Prop where
  id : CrmControl.Drawn env n r.id
  observation : CrmControl.Drawn env n r.observationId
  case : ∀ k, r.caseId = some k → CrmControl.Drawn env n k

structure Inv (env : Env) (db : Db) : Prop where
  case_ids : (db.cases.map (·.id)).Nodup
  active_unique : Table.UniqueOn (·.activeKey) db.cases
  coupled : ∀ c ∈ db.cases, c.Coupled env
  case_drawn : ∀ c ∈ db.cases, Drawn env db.drawn c.id
  caseKey_drawn : ∀ c ∈ db.cases, ∃ a s, c.caseKey = a ++ ":" ++ s ∧ Drawn env db.drawn s
  result_drawn : ∀ r ∈ db.results, r.Drawn env db.drawn
  decision_drawn : ∀ d ∈ db.decisions,
    Drawn env db.drawn d.caseId ∧ Drawn env db.drawn d.observationId
  observation_drawn : ∀ o ∈ db.observations, Drawn env db.drawn o.id
  evidence_drawn : ∀ e ∈ db.evidence, Drawn env db.drawn e.observationId

theorem inv_empty : Inv env {} := by
  constructor <;> simp

theorem Drawn.mono {n m : ℕ} {s : String} (h : Drawn env n s) (hnm : n ≤ m) : Drawn env m s := by
  obtain ⟨k, hk, rfl⟩ := h
  exact ⟨k, by omega, rfl⟩

theorem ResultRow.Drawn.mono {n m : ℕ} {r : ResultRow} (h : r.Drawn env n) (hnm : n ≤ m) :
    r.Drawn env m :=
  ⟨h.id.mono hnm, h.observation.mono hnm, fun k hk => (h.case k hk).mono hnm⟩

theorem Drawn.ne {n : ℕ} {s : String} (h : Drawn env n s) : s ≠ env.uuid n := by
  obtain ⟨k, hk, rfl⟩ := h
  exact fun heq => by have := env.uuid_injective heq; omega

theorem Drawn.free {n : ℕ} {s : String} (h : Drawn env n s) : JoinedKey.Free ':' s := by
  obtain ⟨k, -, rfl⟩ := h
  exact env.uuid_free k

theorem drawn_next (n : ℕ) : Drawn env (n + 1) (env.uuid n) := ⟨n, by omega, rfl⟩

/-- The statements between two states keep the invariant and leave every case without an active key
as it is. -/
structure Evolves (env : Env) (db db' : Db) : Prop where
  inv : Inv env db'
  idle : ∀ c ∈ db.cases, c.activeKey = none → c ∈ db'.cases
  drawn : db.drawn ≤ db'.drawn

theorem Evolves.refl (h : Inv env db) : Evolves env db db := ⟨h, fun _ hc _ => hc, le_rfl⟩

theorem Evolves.trans {db'' : Db} (h : Evolves env db db') (h' : Evolves env db' db'') :
    Evolves env db db'' :=
  ⟨h'.inv, fun c hc hk => h'.idle c (h.idle c hc hk) hk, h.drawn.trans h'.drawn⟩

/-! ## The rows of a store with the invariant -/

theorem Inv.eq_of_id (h : Inv env db) {c c' : CaseRow} (hc : c ∈ db.cases) (hc' : c' ∈ db.cases)
    (hid : c.id = c'.id) : c = c' :=
  List.inj_on_of_nodup_map h.case_ids hc hc' hid

theorem findActive_some {k : String} {c : CaseRow} (h : db.findActive k = some c) :
    c ∈ db.cases ∧ c.activeKey = some k :=
  ⟨List.mem_of_find?_eq_some h, by simpa using List.find?_some h⟩

theorem findActive_none {k : String} :
    db.findActive k = none ↔ ∀ c ∈ db.cases, c.activeKey ≠ some k := by
  simp [Db.findActive]

theorem Inv.findActive_eq (h : Inv env db) {k : String} {c : CaseRow} (hc : c ∈ db.cases)
    (hk : c.activeKey = some k) : db.findActive k = some c :=
  h.active_unique.find?_eq hc hk

/-- A key with the colons of a deal key is not the key of a review. -/
theorem not_review_key {a b c d : String} (n : ℕ) :
    a ++ ":" ++ b ++ ":" ++ c ++ ":" ++ d ≠ "review:" ++ env.uuid n := by
  intro h
  have hcount := congrArg (fun s : String => s.toList.count ':') h
  have hfree : (env.uuid n).toList.count ':' = 0 := List.count_eq_zero.2 (env.uuid_free n)
  simp [hfree] at hcount
  omega

/-! ## Statements on the cases -/

/-- An update of cases keeps the invariant when it keeps or clears the active keys and leaves the
rows it writes coupled. -/
theorem Inv.updateCases (h : Inv env db) {p : CaseRow → Bool} {f : CaseRow → CaseRow}
    (hid : ∀ c, (f c).id = c.id) (hkey : ∀ c, (f c).caseKey = c.caseKey)
    (hactive : ∀ c, p c = true → (f c).activeKey = c.activeKey ∨ (f c).activeKey = none)
    (hcoupled : ∀ c ∈ db.cases, p c = true → (f c).Coupled env) : Inv env (db.updateCases p f) := by
  have hmem : ∀ {P : CaseRow → Prop}, (∀ c ∈ db.cases, P c) → (∀ c ∈ db.cases, p c = true → P (f c)) →
      ∀ c ∈ (db.updateCases p f).cases, P c := by
    intro P hold hnew c hc
    obtain ⟨r, hr, rfl⟩ := Table.mem_updateWhere.1 hc
    by_cases hp : p r = true
    · simpa [hp] using hnew r hr hp
    · simpa [hp] using hold r hr
  refine { h with
    case_ids := ?_
    active_unique := h.active_unique.updateWhere hactive
    coupled := hmem h.coupled hcoupled
    case_drawn := hmem h.case_drawn fun c hc _ => by rw [hid]; exact h.case_drawn c hc
    caseKey_drawn := hmem h.caseKey_drawn fun c hc _ => by rw [hkey]; exact h.caseKey_drawn c hc }
  rw [Db.updateCases, Table.map_updateWhere _ fun c _ => hid c]
  exact h.case_ids

/-- What an accepted insert does. -/
theorem insertCase_ok {row : CaseRow} (h : db.insertCase row = .ok db') :
    db' = { db with cases := db.cases ++ [row], drawn := db.drawn + 1 } ∧
      (∀ c ∈ db.cases, c.caseKey ≠ row.caseKey) ∧
      ∀ c ∈ db.cases, ∀ k, c.activeKey = some k → row.activeKey ≠ some k := by
  unfold Db.insertCase at h
  split_ifs at h with hkey hactive
  refine ⟨(Except.ok.inj h).symm, by simpa using hkey, fun c hc k hk hrow => hactive ⟨by simp [hrow], ?_⟩⟩
  exact List.any_eq_true.2 ⟨c, hc, by simp [hk, hrow]⟩

theorem Inv.insertCase (h : Inv env db) {row : CaseRow} (hdb : db.insertCase row = .ok db')
    (hid : row.id = env.uuid db.drawn) (hcoupled : row.Coupled env)
    (hkey : ∃ a s, row.caseKey = a ++ ":" ++ s ∧ Drawn env db.drawn s) : Inv env db' := by
  obtain ⟨rfl, -, hfree⟩ := insertCase_ok hdb
  have hle : db.drawn ≤ db.drawn + 1 := by omega
  constructor
  · rw [List.map_append]
    refine List.nodup_append.2 ⟨h.case_ids, by simp, fun a ha b hb hab => ?_⟩
    obtain ⟨c, hc, rfl⟩ := List.mem_map.1 ha
    obtain rfl : b = row.id := by simpa using hb
    exact (h.case_drawn c hc).ne (hab.trans hid)
  · exact h.active_unique.append hfree
  · simpa [or_imp, forall_and] using ⟨h.coupled, hcoupled⟩
  · intro c hc
    rcases List.mem_append.1 hc with hc | hc
    · exact (h.case_drawn c hc).mono hle
    · obtain rfl : c = row := by simpa using hc
      exact hid ▸ drawn_next db.drawn
  · intro c hc
    obtain ⟨a, s, heq, hs⟩ := (List.mem_append.1 hc).elim (h.caseKey_drawn c) fun hc => by
      obtain rfl : c = row := by simpa using hc
      exact hkey
    exact ⟨a, s, heq, hs.mono hle⟩
  · exact fun r hr => (h.result_drawn r hr).mono hle
  · exact fun d hd => ⟨(h.decision_drawn d hd).1.mono hle, (h.decision_drawn d hd).2.mono hle⟩
  · exact fun o ho => (h.observation_drawn o ho).mono hle
  · exact fun e he => (h.evidence_drawn e he).mono hle

/-! ## Statements on the other tables -/

theorem insertObservation_ok {row : Observation} (h : db.insertObservation row = .ok db') :
    db' = { db with observations := db.observations ++ [row], drawn := db.drawn + 1 } := by
  unfold Db.insertObservation at h
  split_ifs at h
  exact (Except.ok.inj h).symm

theorem insertResult_ok {row : ResultRow} (h : db.insertResult row = .ok db') :
    db' = { db with results := db.results ++ [row], drawn := db.drawn + 1 } := by
  unfold Db.insertResult at h
  split_ifs at h
  exact (Except.ok.inj h).symm

theorem insertEvidence_ok {row : Evidence} (h : db.insertEvidence row = .ok db') :
    db' = { db with evidence := db.evidence ++ [row], drawn := db.drawn + 1 } := by
  unfold Db.insertEvidence at h
  split_ifs at h
  exact (Except.ok.inj h).symm

/-- Drawing more identifiers and adding rows that refer to drawn ones keeps the invariant. -/
theorem Inv.extend (h : Inv env db) (hcases : db'.cases = db.cases) (hle : db.drawn ≤ db'.drawn)
    (hresults : ∀ r ∈ db'.results, r ∈ db.results ∨ r.Drawn env db'.drawn)
    (hdecisions : ∀ d ∈ db'.decisions, d ∈ db.decisions ∨
      (Drawn env db'.drawn d.caseId ∧ Drawn env db'.drawn d.observationId))
    (hobservations : ∀ o ∈ db'.observations, o ∈ db.observations ∨ Drawn env db'.drawn o.id)
    (hevidence : ∀ e ∈ db'.evidence, e ∈ db.evidence ∨ Drawn env db'.drawn e.observationId) :
    Inv env db' where
  case_ids := by rw [hcases]; exact h.case_ids
  active_unique := by rw [hcases]; exact h.active_unique
  coupled := by rw [hcases]; exact h.coupled
  case_drawn := by rw [hcases]; exact fun c hc => (h.case_drawn c hc).mono hle
  caseKey_drawn := by
    rw [hcases]
    intro c hc
    obtain ⟨a, s, heq, hs⟩ := h.caseKey_drawn c hc
    exact ⟨a, s, heq, hs.mono hle⟩
  result_drawn := fun r hr => (hresults r hr).elim (fun hr => (h.result_drawn r hr).mono hle) id
  decision_drawn := fun d hd => (hdecisions d hd).elim
    (fun hd => ⟨(h.decision_drawn d hd).1.mono hle, (h.decision_drawn d hd).2.mono hle⟩) id
  observation_drawn := fun o ho => (hobservations o ho).elim
    (fun ho => (h.observation_drawn o ho).mono hle) id
  evidence_drawn := fun e he => (hevidence e he).elim
    (fun he => (h.evidence_drawn e he).mono hle) id

theorem Inv.insertObservation (h : Inv env db) {row : Observation}
    (hdb : db.insertObservation row = .ok db') (hid : row.id = env.uuid db.drawn) : Inv env db' := by
  obtain rfl := insertObservation_ok hdb
  refine h.extend rfl (Nat.le_succ _) (fun _ => Or.inl) (fun _ => Or.inl) (fun o ho => ?_)
    fun _ => Or.inl
  rcases List.mem_append.1 ho with ho | ho
  · exact Or.inl ho
  · obtain rfl : o = row := by simpa using ho
    exact Or.inr (hid ▸ drawn_next db.drawn)

theorem Inv.insertResult (h : Inv env db) {row : ResultRow} (hdb : db.insertResult row = .ok db')
    (hid : row.id = env.uuid db.drawn) (hobs : Drawn env db.drawn row.observationId)
    (hcase : ∀ k, row.caseId = some k → Drawn env db.drawn k) : Inv env db' := by
  obtain rfl := insertResult_ok hdb
  refine h.extend rfl (Nat.le_succ _) (fun r hr => ?_) (fun _ => Or.inl) (fun _ => Or.inl)
    fun _ => Or.inl
  rcases List.mem_append.1 hr with hr | hr
  · exact Or.inl hr
  · obtain rfl : r = row := by simpa using hr
    exact Or.inr ⟨hid ▸ drawn_next db.drawn, hobs.mono (Nat.le_succ _),
      fun k hk => (hcase k hk).mono (Nat.le_succ _)⟩

theorem Inv.insertEvidence (h : Inv env db) {row : Evidence} (hdb : db.insertEvidence row = .ok db')
    (hobs : Drawn env db.drawn row.observationId) : Inv env db' := by
  obtain rfl := insertEvidence_ok hdb
  refine h.extend rfl (Nat.le_succ _) (fun _ => Or.inl) (fun _ => Or.inl) (fun _ => Or.inl)
    fun e he => ?_
  rcases List.mem_append.1 he with he | he
  · exact Or.inl he
  · obtain rfl : e = row := by simpa using he
    exact Or.inr (hobs.mono (Nat.le_succ _))

theorem Inv.insertDecision (h : Inv env db) {row : Decision} (hcase : Drawn env db.drawn row.caseId)
    (hobs : Drawn env db.drawn row.observationId) : Inv env (db.insertDecision row) := by
  refine h.extend rfl (Nat.le_succ _) (fun _ => Or.inl) (fun d hd => ?_) (fun _ => Or.inl)
    fun _ => Or.inl
  rcases List.mem_append.1 hd with hd | hd
  · exact Or.inl hd
  · obtain rfl : d = row := by simpa using hd
    exact Or.inr ⟨hcase.mono (Nat.le_succ _), hobs.mono (Nat.le_succ _)⟩

/-! ## The loop over the results -/

section Results

variable {input : RuleInput} {result : RuleResult} {observationId : String} {observedAt : ℤ}

/-- A superseded case is no longer live. -/
theorem Inv.supersede (h : Inv env db) (id : String) : Inv env (supersede db id) := by
  refine h.updateCases (fun _ => rfl) (fun _ => rfl) (fun _ _ => Or.inr rfl) fun c _ _ => ?_
  exact { active := fun _ hk => nomatch hk
          live := fun _ hlive => absurd (Or.inr rfl) hlive
          review := fun _ => rfl }

/-- The first half of a turn: the invariant is kept, and the lookup by active key gives the
previous case from here on. -/
theorem Inv.previousCase (h : Inv env db) (input : RuleInput) (result : RuleResult) :
    Inv env (previousCase env input result db).1 ∧
      (previousCase env input result db).1.findActive (caseActiveKey input.deal.id result) =
        (previousCase env input result db).2 ∧
      (previousCase env input result db).1.drawn = db.drawn := by
  unfold CrmControl.previousCase
  cases hfind : db.findActive (caseActiveKey input.deal.id result) with
  | none => exact ⟨h, hfind, rfl⟩
  | some c =>
    dsimp only
    split_ifs
    · refine ⟨h.supersede c.id, findActive_none.2 fun r hr hkey => ?_, rfl⟩
      obtain ⟨r₀, hr₀, rfl⟩ := Table.mem_updateWhere.1 hr
      obtain ⟨hc, hck⟩ := findActive_some hfind
      by_cases hid : r₀.id = c.id
      · simp [hid] at hkey
      · simp only [hid, decide_false, Bool.false_eq_true, if_false] at hkey
        exact hid (congrArg CaseRow.id (h.active_unique.eq_of_mem hr₀ hc hkey hck))
    · exact ⟨h, hfind, rfl⟩

/-- The state a result gives its case: a known case is resolved, or the case is live. -/
theorem nextControlCaseState_spec {previous : Option CaseState} {state : CaseStatus}
    (h : nextControlCaseState previous result observedAt = some state) :
    (state = .resolved ∧ previous.isSome) ∨ ¬ state.Closed := by
  by_cases hstate : state = .resolved
  · subst hstate
    cases previous with
    | none => exact absurd h nextControlCaseState_none_ne_resolved
    | some p => exact Or.inl ⟨rfl, rfl⟩
  · exact Or.inr (nextControlCaseState_live h hstate)

theorem CaseRow.observe_id (state : CaseStatus) (hash : String) (previous : Option CaseRow) (c : CaseRow) :
    (c.observe state hash observationId observedAt previous).id = c.id := by
  unfold CaseRow.observe
  split_ifs <;> rfl

theorem CaseRow.observe_caseKey (state : CaseStatus) (hash : String) (previous : Option CaseRow)
    (c : CaseRow) : (c.observe state hash observationId observedAt previous).caseKey = c.caseKey := by
  unfold CaseRow.observe
  split_ifs <;> rfl

/-- The update half of the upsert couples the row: a resolved case loses its key, any other state
is live and keeps it. -/
theorem CaseRow.Coupled.observe {c : CaseRow} (h : c.Coupled env) {k : String}
    (hk : c.activeKey = some k) {state : CaseStatus} (hstate : state = .resolved ∨ ¬ state.Closed)
    (hash : String) (previous : Option CaseRow) :
    (c.observe state hash observationId observedAt previous).Coupled env := by
  unfold CaseRow.observe
  split_ifs with hres
  · exact { active := fun _ hk => nomatch hk
            live := fun _ hlive => absurd (Or.inl hres) hlive
            review := fun _ => rfl }
  · have hlive : ¬ state.Closed := hstate.resolve_left hres
    exact { active := fun k' hk' => ⟨(h.active k' hk').1, hlive⟩
            live := fun _ _ => by
              show c.activeKey = some c.key
              rw [hk, (h.active k hk).1]
            review := h.review }

theorem newCase_coupled (id : String) {state : CaseStatus} (hstate : ¬ state.Closed) (hash : String) :
    (newCase id input result state hash observationId observedAt).Coupled env where
  active := fun _ hk => ⟨(Option.some.inj hk).symm, hstate⟩
  live := fun _ _ => rfl
  review := fun ⟨n, hn⟩ => absurd hn (not_review_key n)

/-- The first half of a turn leaves every case with another active key as it is. -/
theorem Inv.previousCase_keeps (h : Inv env db) {c : CaseRow} (hc : c ∈ db.cases)
    (hk : c.activeKey ≠ some (caseActiveKey input.deal.id result)) :
    c ∈ (CrmControl.previousCase env input result db).1.cases := by
  unfold CrmControl.previousCase
  cases hfind : db.findActive (caseActiveKey input.deal.id result) with
  | none => exact hc
  | some r =>
    dsimp only
    split_ifs
    · obtain ⟨hr, hrk⟩ := findActive_some hfind
      exact Table.mem_updateWhere_of_not hc (decide_eq_false fun hid => hk (h.eq_of_id hc hr hid ▸ hrk))
    · exact hc

/-- So does the upsert. -/
theorem upsertCase_keeps {state : CaseStatus} {previous : Option CaseRow} {id : String}
    (hdb : upsertCase env input result state observationId observedAt previous db = .ok (db', id))
    {c : CaseRow} (hc : c ∈ db.cases)
    (hk : c.activeKey ≠ some (caseActiveKey input.deal.id result)) : c ∈ db'.cases := by
  unfold CrmControl.upsertCase at hdb
  cases hfind : db.findActive (caseActiveKey input.deal.id result) with
  | some r =>
    simp only [hfind, Except.ok.injEq, Prod.mk.injEq] at hdb
    obtain ⟨rfl, -⟩ := hdb
    exact Table.mem_updateWhere_of_not hc (decide_eq_false hk)
  | none =>
    simp only [hfind, bind_ok, Except.ok.injEq, Prod.mk.injEq] at hdb
    obtain ⟨db₁, hinsert, rfl, -⟩ := hdb
    obtain ⟨rfl, -, -⟩ := insertCase_ok hinsert
    exact List.mem_append_left _ hc

theorem Inv.upsertCase (h : Inv env db) (hobs : Drawn env db.drawn observationId)
    {state : CaseStatus} {previous : Option CaseRow} {id : String}
    (hprevious : db.findActive (caseActiveKey input.deal.id result) = previous)
    (hstate : (state = .resolved ∧ previous.isSome) ∨ ¬ state.Closed)
    (hdb : upsertCase env input result state observationId observedAt previous db = .ok (db', id)) :
    Inv env db' ∧ db.drawn ≤ db'.drawn ∧ Drawn env db'.drawn id := by
  unfold CrmControl.upsertCase at hdb
  cases previous with
  | some c =>
    simp only [hprevious, Except.ok.injEq, Prod.mk.injEq] at hdb
    obtain ⟨rfl, rfl⟩ := hdb
    refine ⟨h.updateCases (CaseRow.observe_id _ _ _) (CaseRow.observe_caseKey _ _ _) ?_ ?_, le_rfl,
      h.case_drawn c (findActive_some hprevious).1⟩
    · intro r _
      unfold CaseRow.observe
      split_ifs
      · exact Or.inr rfl
      · exact Or.inl rfl
    · intro r hr hk
      exact (h.coupled r hr).observe (of_decide_eq_true hk) (hstate.imp_left And.left) _ _
  | none =>
    simp only [hprevious, bind_ok, Except.ok.injEq, Prod.mk.injEq] at hdb
    obtain ⟨db₁, hinsert, rfl, rfl⟩ := hdb
    have hlive : ¬ state.Closed := hstate.resolve_left fun hs => nomatch hs.2
    refine ⟨h.insertCase hinsert rfl (newCase_coupled _ hlive _) ⟨_, _, rfl, hobs⟩, ?_⟩
    obtain ⟨rfl, -, -⟩ := insertCase_ok hinsert
    exact ⟨Nat.le_succ _, drawn_next _⟩

/-- The case of a result: the invariant is kept, cases with other active keys stay as they are, and
the id given to the result is drawn. -/
theorem Inv.observeCase (h : Inv env db) (hobs : Drawn env db.drawn observationId)
    {caseId : Option String}
    (hdb : observeCase env input observationId observedAt db result = .ok (db', caseId)) :
    Inv env db' ∧ db.drawn ≤ db'.drawn ∧ (∀ k, caseId = some k → Drawn env db'.drawn k) ∧
      ∀ c ∈ db.cases, c.activeKey ≠ some (caseActiveKey input.deal.id result) → c ∈ db'.cases := by
  unfold CrmControl.observeCase at hdb
  have hkeeps : ∀ c ∈ db.cases, c.activeKey ≠ some (caseActiveKey input.deal.id result) →
      c ∈ (CrmControl.previousCase env input result db).1.cases :=
    fun _ hc hk => h.previousCase_keeps hc hk
  obtain ⟨hinv, hfind, hdrawn⟩ := h.previousCase input result
  generalize CrmControl.previousCase env input result db = p at hdb hkeeps hinv hfind hdrawn
  obtain ⟨db₁, previous⟩ := p
  dsimp only at hdb hkeeps hinv hfind hdrawn
  cases hstate : nextControlCaseState (previous.map (·.state)) result observedAt with
  | none =>
    simp only [hstate, Except.ok.injEq, Prod.mk.injEq] at hdb
    obtain ⟨rfl, rfl⟩ := hdb
    refine ⟨hinv, hdrawn.ge, fun k hk => ?_, hkeeps⟩
    obtain ⟨c, hc, rfl⟩ := Option.map_eq_some_iff.1 hk
    exact hinv.case_drawn c (findActive_some (hfind.trans hc)).1
  | some state =>
    simp only [hstate, bind_ok, Except.ok.injEq, Prod.mk.injEq] at hdb
    obtain ⟨⟨db₂, id⟩, hupsert, rfl, rfl⟩ := hdb
    have hspec := nextControlCaseState_spec hstate
    rw [Option.isSome_map] at hspec
    obtain ⟨hinv₂, hle, hid⟩ := hinv.upsertCase (hobs.mono hdrawn.ge) hfind hspec hupsert
    exact ⟨hinv₂, hdrawn.ge.trans hle, fun k hk => Option.some.inj hk ▸ hid,
      fun c hc hk => upsertCase_keeps hupsert (hkeeps c hc hk) hk⟩

theorem Inv.persistResult (h : Inv env db) (hobs : Drawn env db.drawn observationId)
    (hdb : persistResult env input observationId observedAt db result = .ok db') :
    Evolves env db db' := by
  obtain ⟨⟨db₁, caseId⟩, hcase, hinsert⟩ := bind_ok.1 hdb
  obtain ⟨hinv, hle, hid, hkeeps⟩ := h.observeCase hobs hcase
  have hinv' := hinv.insertResult hinsert rfl (hobs.mono hle) hid
  obtain rfl := insertResult_ok hinsert
  exact ⟨hinv', fun c hc hk => hkeeps c hc (by simp [hk]), hle.trans (Nat.le_succ _)⟩

/-- The loop over the results, by induction over them. -/
theorem Inv.persistResults {results : List RuleResult} (h : Inv env db)
    (hobs : Drawn env db.drawn observationId)
    (hdb : persistResults env input observationId observedAt db results = .ok db') :
    Evolves env db db' := by
  induction results generalizing db with
  | nil => exact Except.ok.inj hdb ▸ Evolves.refl h
  | cons result results ih =>
    obtain ⟨db₁, hturn, hrest⟩ := bind_ok.1 hdb
    have hstep := h.persistResult hobs hturn
    exact hstep.trans (ih hstep.inv (hobs.mono hstep.drawn) hrest)

end Results

/-! ## The bulk updates -/

/-- A bulk update closes the cases it selects. -/
theorem Inv.resolveWhere (h : Inv env db) (p : CaseRow → Bool) (observedAt : ℤ)
    (observationId : String) : Inv env (db.updateCases p (·.resolve observedAt observationId)) := by
  refine h.updateCases (fun _ => rfl) (fun _ => rfl) (fun _ _ => Or.inr rfl) fun c _ _ => ?_
  exact { active := fun _ hk => nomatch hk
          live := fun _ hlive => absurd (Or.inl rfl) hlive
          review := fun _ => rfl }

theorem Inv.resolveGoneTasks (h : Inv env db) (input : RuleInput) (observationId : String)
    (observedAt : ℤ) : Inv env (resolveGoneTasks input observationId observedAt db) := by
  unfold CrmControl.resolveGoneTasks
  split_ifs
  · exact h.resolveWhere _ _ _
  · exact h

theorem Inv.resolveUnlimited (h : Inv env db) (input : RuleInput) (results : List RuleResult)
    (observationId : String) (observedAt : ℤ) :
    Evolves env db (resolveUnlimited input results observationId observedAt db) := by
  unfold CrmControl.resolveUnlimited
  split_ifs
  · refine ⟨h.resolveWhere _ _ _, fun c hc hk => ?_, le_rfl⟩
    exact Table.mem_updateWhere_of_not hc (by simp [unlimitedStage, hk])
  · exact Evolves.refl h

theorem Inv.requestEvidence (h : Inv env db) {results : List RuleResult} {observationId dealUrl : String}
    (hobs : Drawn env db.drawn observationId)
    (hdb : requestEvidence env results observationId dealUrl db = .ok db') : Evolves env db db' := by
  unfold CrmControl.requestEvidence at hdb
  split_ifs at hdb
  · refine ⟨h.insertEvidence hdb hobs, ?_, ?_⟩
    · obtain rfl := insertEvidence_ok hdb
      exact fun c hc _ => hc
    · obtain rfl := insertEvidence_ok hdb
      exact Nat.le_succ _
  · exact Except.ok.inj hdb ▸ Evolves.refl h

/-! ## Whole operations -/

/-- What a successful `persistObservation` did: it found the saved observation, or it saved one. -/
theorem persistObservation_ok {args : PersistArgs} {o : Observation}
    (h : persistObservation env args db = .ok (db', o)) :
    (db' = db ∧ db.savedObservation args.runId args.input.deal.id = some o) ∨
      ∃ results observedAt,
        assessOffers env args.input (env.uuid db.drawn) args.snapshot args.results = .ok results ∧
        holdsLease db args.runId args.leaseStartedAt = true ∧
        db.savedObservation args.runId args.input.deal.id = none ∧
        args.input.observedAt = some observedAt ∧
        saveObservation env args results observedAt db = .ok (db', o) := by
  obtain ⟨results, hresults, h⟩ := bind_ok.1 h
  split_ifs at h with hlease
  cases hsaved : db.savedObservation args.runId args.input.deal.id with
  | some existing =>
    simp only [hsaved, Except.ok.injEq, Prod.mk.injEq] at h
    exact Or.inl ⟨h.1.symm, by rw [h.2]⟩
  | none =>
    cases hobs : args.input.observedAt with
    | none => simp [hsaved, hobs] at h
    | some observedAt =>
      simp only [hsaved, hobs] at h
      exact Or.inr ⟨results, observedAt, hresults, by simpa using hlease, rfl, rfl, h⟩

/-- The statements of a saved observation. -/
theorem saveObservation_ok {args : PersistArgs} {results : List RuleResult} {observedAt : ℤ}
    {o : Observation} (h : saveObservation env args results observedAt db = .ok (db', o)) :
    o = observationRow env args results (env.uuid db.drawn) observedAt ∧ ∃ db₁ db₂,
      db.insertObservation o = .ok db₁ ∧
      persistResults env args.input (env.uuid db.drawn) observedAt db₁ results = .ok db₂ ∧
      requestEvidence env results (env.uuid db.drawn) args.labels.dealUrl
        (resolveUnlimited args.input results (env.uuid db.drawn) observedAt
          (resolveGoneTasks args.input (env.uuid db.drawn) observedAt db₂)) = .ok db' := by
  obtain ⟨db₁, hinsert, h⟩ := bind_ok.1 h
  obtain ⟨db₂, hresults, h⟩ := bind_ok.1 h
  obtain ⟨db₃, hevidence, h⟩ := bind_ok.1 h
  simp only [Except.ok.injEq, Prod.mk.injEq] at h
  obtain ⟨rfl, rfl⟩ := h
  exact ⟨rfl, db₁, db₂, hinsert, hresults, hevidence⟩

/-- Up to the first bulk update an observation leaves idle cases alone. -/
theorem Inv.saveObservation_loop (h : Inv env db) {args : PersistArgs} {results : List RuleResult}
    {observedAt : ℤ} {db₁ db₂ : Db}
    (hinsert : db.insertObservation
      (observationRow env args results (env.uuid db.drawn) observedAt) = .ok db₁)
    (hresults : CrmControl.persistResults env args.input (env.uuid db.drawn) observedAt db₁ results =
      .ok db₂) : Evolves env db db₂ ∧ Drawn env db₂.drawn (env.uuid db.drawn) := by
  have hinv₁ := h.insertObservation hinsert rfl
  obtain rfl := insertObservation_ok hinsert
  have hobs : Drawn env (db.drawn + 1) (env.uuid db.drawn) := drawn_next db.drawn
  have hloop := hinv₁.persistResults hobs hresults
  exact ⟨⟨hloop.inv, hloop.idle, (Nat.le_succ _).trans hloop.drawn⟩, hobs.mono hloop.drawn⟩

theorem Inv.persistObservation (h : Inv env db) {args : PersistArgs} {o : Observation}
    (hdb : persistObservation env args db = .ok (db', o)) : Inv env db' := by
  rcases persistObservation_ok hdb with ⟨rfl, -⟩ | ⟨results, observedAt, -, -, -, -, hsave⟩
  · exact h
  obtain ⟨rfl, db₁, db₂, hinsert, hresults, hevidence⟩ := saveObservation_ok hsave
  obtain ⟨hloop, hobs⟩ := h.saveObservation_loop hinsert hresults
  have hgone := hloop.inv.resolveGoneTasks args.input (env.uuid db.drawn) observedAt
  have hunlimited := hgone.resolveUnlimited args.input results (env.uuid db.drawn) observedAt
  refine (hunlimited.inv.requestEvidence (hobs.mono ?_) hevidence).inv
  refine le_trans (le_of_eq ?_) hunlimited.drawn
  unfold CrmControl.resolveGoneTasks
  split_ifs <;> rfl

/-- What an accepted decision did. -/
theorem decide_ok {access : Access} {id : String} {body : DecisionInput} {clock : DecisionClock}
    (h : Service.decide env access id body clock db = .ok db') :
    ∃ item o, db.findCase id = some item ∧ db.findObservation item.latestObservationId = some o ∧
      decideRefusal db access item o body clock.checkedAt = none ∧
      db' = (db.updateCases (fun c => c.id = id ∧ c.status = item.status ∧
          c.latestObservationId = item.latestObservationId) (·.decided body clock.confirmedAt)).insertDecision
        (decisionRow env db access o id body.action (trim body.reason)
          (if body.action = .exempt then body.validUntil else none)
          (decisionTime clock.decidedAt (db.lastDecision id o.id))) := by
  unfold Service.decide at h
  cases hitem : db.findCase id with
  | none => simp [hitem] at h
  | some item =>
    simp only [hitem] at h
    unfold visibleObservation at h
    cases hvisible : (db.findObservation item.latestObservationId).filter (access.sees ·) with
    | none => simp [hvisible] at h
    | some o =>
      simp only [hvisible] at h
      cases hrefusal : decideRefusal db access item o body clock.checkedAt with
      | some e => simp [hrefusal] at h
      | none =>
        simp only [hrefusal] at h
        split at h
        · exact nomatch h
        split at h
        · exact nomatch h
        · exact ⟨item, o, rfl, (Option.filter_eq_some_iff.1 hvisible).1, hrefusal,
            (Except.ok.inj h).symm⟩

/-- What a decision that was not refused promises. -/
theorem decideRefusal_none {access : Access} {item : CaseRow} {o : Observation} {body : DecisionInput}
    {checkedAt : ℤ} (h : decideRefusal db access item o body checkedAt = none) :
    ¬ item.status.Closed ∧ body.action.isReview = false ∧
      (body.action = .exempt → ∃ v, body.validUntil = some v ∧ checkedAt < v) := by
  unfold decideRefusal at h
  split_ifs at h with h₁ h₂ h₃ h₄ h₅
  refine ⟨h₄, by simpa using fun hr => h₁ (Or.inl hr), fun haction => ?_⟩
  have hvalid := not_not.1 fun hv => h₅ ⟨haction, hv⟩
  simpa [Option.any_eq_true] using hvalid

theorem decidedStatus_live (action : DecisionAction) :
    ¬ (decidedStatus action).Closed ∧ decidedStatus action ≠ .resolved := by
  cases action <;> simp [decidedStatus, CaseStatus.Closed]

theorem Inv.decide (h : Inv env db) {access : Access} {id : String} {body : DecisionInput}
    {clock : DecisionClock} (hdb : Service.decide env access id body clock db = .ok db') :
    Inv env db' := by
  obtain ⟨item, o, hitem, ho, hrefusal, rfl⟩ := decide_ok hdb
  obtain ⟨hlive, -, -⟩ := decideRefusal_none hrefusal
  have hitem' := List.mem_of_find?_eq_some hitem
  have hid : item.id = id := by simpa using List.find?_some hitem
  have hinv : Inv env (db.updateCases (fun c => c.id = id ∧ c.status = item.status ∧
      c.latestObservationId = item.latestObservationId) (·.decided body clock.confirmedAt)) := by
    refine h.updateCases (fun _ => rfl) (fun _ => rfl) (fun _ _ => Or.inl rfl) fun c hc hp => ?_
    obtain ⟨-, hstatus, -⟩ := of_decide_eq_true hp
    have hcoupled := h.coupled c hc
    exact { active := fun k hk => ⟨(hcoupled.active k hk).1, (decidedStatus_live _).1⟩
            live := fun hreview _ => hcoupled.live hreview (hstatus ▸ hlive)
            review := hcoupled.review }
  refine hinv.insertDecision (hid ▸ h.case_drawn item hitem') ?_
  exact h.observation_drawn o (List.mem_of_find?_eq_some ho)

/-- What an accepted manual review did. -/
theorem reviewResult_ok {access : Access} {observationId resultId : String} {body : ManualReviewInput}
    {now : ℤ} (h : Service.reviewResult env access observationId resultId body now db = .ok db') :
    ∃ o result db₁ caseId decision, o ∈ db.observations ∧ result ∈ db.results ∧
      ensureCase env o result db = .ok (db₁, caseId) ∧ decision.action = .verify body.outcome ∧
      decision.caseId = caseId ∧ decision.observationId = o.id ∧
      (db' = db₁.insertDecision decision ∨
        ensureEvidenceForObservation env o (db₁.insertDecision decision) = .ok db') := by
  unfold Service.reviewResult visibleObservation at h
  obtain ⟨o, ho, h⟩ := bind_ok.1 h
  cases hvisible : (db.findObservation observationId).filter (access.sees ·) with
  | none => simp [hvisible] at ho
  | some o' =>
    obtain rfl : o' = o := by simpa [hvisible] using ho
    have hmem : o' ∈ db.observations :=
      List.mem_of_find?_eq_some (Option.filter_eq_some_iff.1 hvisible).1
    split at h
    · exact nomatch h
    cases hresult : db.findResult resultId observationId with
    | none => simp [hresult] at h
    | some result =>
      simp only [hresult] at h
      split at h
      · exact nomatch h
      obtain ⟨url, -, h⟩ := bind_ok.1 h
      split at h
      · exact nomatch h
      obtain ⟨⟨db₁, caseId⟩, hcase, h⟩ := bind_ok.1 h
      dsimp only at h
      split at h
      · exact nomatch h
      refine ⟨o', result, db₁, caseId, decisionRow env db₁ access o' caseId (.verify body.outcome)
        (trim body.reason ++ "\nИсточник: " ++ url.href) none
        (decisionTime now (db₁.lastDecision caseId observationId)), hmem,
        List.mem_of_find?_eq_some hresult, hcase, rfl, rfl, rfl, ?_⟩
      split at h
      · exact Or.inr h
      · exact Or.inl (Except.ok.inj h).symm

theorem reviewCase_byReview {o : Observation} {result : ResultRow} {n : ℕ}
    (hresult : Drawn env n result.id) (id : String) : ByReview env (reviewCase env id o result) := by
  obtain ⟨k, -, hk⟩ := hresult
  exact ⟨k, by rw [← hk]; rfl⟩

theorem reviewCase_coupled {o : Observation} {result : ResultRow} {n : ℕ}
    (hresult : Drawn env n result.id) (id : String) : (reviewCase env id o result).Coupled env where
  active := fun _ hk => nomatch hk
  live := fun hreview _ => absurd (reviewCase_byReview hresult id) hreview
  review := fun _ => rfl

/-- Linking a result to a new case keeps the invariant and every case. -/
theorem Inv.ensureCase (h : Inv env db) {o : Observation} {result : ResultRow} {caseId : String}
    (hresult : result ∈ db.results) (hdb : ensureCase env o result db = .ok (db', caseId)) :
    Inv env db' ∧ (∀ c ∈ db.cases, c ∈ db'.cases) ∧ db'.observations = db.observations ∧
      Drawn env db'.drawn caseId := by
  unfold CrmControl.ensureCase at hdb
  cases hcase : result.caseId with
  | some id =>
    simp only [hcase, Except.ok.injEq, Prod.mk.injEq] at hdb
    obtain ⟨rfl, rfl⟩ := hdb
    exact ⟨h, fun _ hc => hc, rfl, (h.result_drawn result hresult).case _ hcase⟩
  | none =>
    simp only [hcase, bind_ok, Except.ok.injEq, Prod.mk.injEq] at hdb
    obtain ⟨db₁, hinsert, rfl, rfl⟩ := hdb
    have hdrawn := (h.result_drawn result hresult).id
    have hinv := h.insertCase hinsert rfl (reviewCase_coupled hdrawn _)
      ⟨"review", result.id, rfl, hdrawn⟩
    have hnew : Drawn env db₁.drawn (env.uuid db.drawn) := by
      obtain ⟨rfl, -, -⟩ := insertCase_ok hinsert
      exact drawn_next db.drawn
    have hlink : Inv env (linkResult result.id (env.uuid db.drawn) db₁) := by
      refine hinv.extend rfl le_rfl (fun r hr => Or.inr ?_) (fun _ => Or.inl) (fun _ => Or.inl)
        fun _ => Or.inl
      obtain ⟨r₀, hr₀, rfl⟩ := Table.mem_updateWhere.1 hr
      have hr₀' := hinv.result_drawn r₀ hr₀
      split_ifs
      · exact ⟨hr₀'.id, hr₀'.observation, fun k hk => Option.some.inj hk ▸ hnew⟩
      · exact hr₀'
    obtain ⟨rfl, -, -⟩ := insertCase_ok hinsert
    exact ⟨hlink, fun c hc => List.mem_append_left _ hc, rfl, hnew⟩

theorem Inv.ensureEvidence (h : Inv env db) {o : Observation} (ho : o ∈ db.observations)
    (hdb : ensureEvidenceForObservation env o db = .ok db') :
    Inv env db' ∧ db'.cases = db.cases := by
  unfold ensureEvidenceForObservation at hdb
  split at hdb
  · obtain rfl := Except.ok.inj hdb
    exact ⟨h, rfl⟩
  · refine ⟨h.insertEvidence hdb (h.observation_drawn o ho), ?_⟩
    obtain rfl := insertEvidence_ok hdb
    rfl

/-- A manual review keeps the invariant and every case. -/
theorem Inv.reviewResult (h : Inv env db) {access : Access} {observationId resultId : String}
    {body : ManualReviewInput} {now : ℤ}
    (hdb : Service.reviewResult env access observationId resultId body now db = .ok db') :
    Inv env db' ∧ ∀ c ∈ db.cases, c ∈ db'.cases := by
  obtain ⟨o, result, db₁, caseId, decision, ho, hresult, hcase, -, hcaseId, hobsId, hlast⟩ :=
    reviewResult_ok hdb
  obtain ⟨hinv, hcases, hobs, hdrawn⟩ := h.ensureCase hresult hcase
  have hdecision : Inv env (db₁.insertDecision decision) := by
    refine hinv.insertDecision (hcaseId ▸ hdrawn) (hobsId ▸ hinv.observation_drawn o ?_)
    rw [hobs]
    exact ho
  rcases hlast with rfl | hevidence
  · exact ⟨hdecision, hcases⟩
  · obtain ⟨hinv', hcases'⟩ := hdecision.ensureEvidence (o := o) (by rw [← hobs] at ho; exact ho) hevidence
    exact ⟨hinv', by rw [hcases']; exact hcases⟩

/-! ## Runs -/

/-- **Step lemma.** Every operation keeps the invariant. -/
theorem inv_step {op : Op} (h : Inv env db) (hstep : step env db op = some db') : Inv env db' := by
  cases op with
  | persist args =>
    obtain rfl := Option.some.inj hstep
    refine commit_induction h fun t ht => ?_
    obtain ⟨⟨t', o⟩, hpersist, rfl⟩ := map_ok.1 ht
    exact h.persistObservation hpersist
  | decide access id body clock =>
    obtain rfl := Option.some.inj hstep
    exact commit_induction h fun t ht => h.decide ht
  | review access observationId resultId body now =>
    obtain rfl := Option.some.inj hstep
    exact commit_induction h fun t ht => (h.reviewResult ht).1
  | queue runs =>
    obtain rfl := Option.some.inj hstep
    exact h.extend rfl le_rfl (fun _ => Or.inl) (fun _ => Or.inl) (fun _ => Or.inl) fun _ => Or.inl
  | analyse outcomes =>
    obtain rfl := Option.some.inj hstep
    exact h.extend rfl le_rfl (fun _ => Or.inl) (fun _ => Or.inl) (fun _ => Or.inl) fun _ => Or.inl

/-- **Run lemma.** Every store reached from the empty one satisfies the invariant. -/
theorem inv_of_reachable {G : Db → Op → Prop} (h : Run.ReachableVia (step env) G {} db) :
    Inv env db :=
  h.invariant inv_empty fun _ _ _ hs _ => inv_step hs

end AmoAnalytics.CrmControl
