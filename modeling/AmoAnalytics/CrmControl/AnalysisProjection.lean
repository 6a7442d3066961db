import AmoAnalytics.CrmControl.AnalysisEffect
import AmoAnalytics.Lib.Paging

/-!
# The projection of the analysis

`crm-control-analysis.projection.ts` shows one job of a result: the one that was created last. `enqueue` creates a job
for each identity of the analyzer and the request only once, so after a change of the analyzer and back the job of the
current identity is not the last one. `Follows` is the condition on a run under which it always is.
-/

namespace AmoAnalytics.CrmControl

variable {env : Env} {analyzer : Analyzer} {db db' : AnalysisDb}

/-! ## The projection -/

/-- `errors`. -/
def analysisErrors : List (String × String) :=
  [("LOCAL_AI_NOT_CONFIGURED", "Локальный анализ не настроен."),
    ("LOCAL_AI_INPUT_LIMIT", "Объём источников превышает предел одного анализа."),
    ("LOCAL_AI_UNAVAILABLE", "Локальный анализатор временно недоступен."),
    ("LOCAL_AI_TIMEOUT", "Анализ не уложился в отведённое время."),
    ("LOCAL_AI_INVALID_RESPONSE", "Вывод анализатора не прошёл проверку источников."),
    ("LOCAL_AI_STORAGE_UNAVAILABLE", "Архив анализа временно недоступен."),
    ("LOCAL_AI_VERSION_CHANGED", "Настройки анализатора изменились; требуется повторная постановка проверки."),
    ("LOCAL_AI_IDENTITY_MISMATCH", "Вывод не соответствует сохранённым исходным данным."),
    ("LEASE_EXPIRED", "Обработка была прервана.")]

structure AnalysisSummary where
  id : String
  status : JobStatus
  outcome : Option ResultStatus
  message : String
  completedAt : Option ℤ
  attempts : ℕ

/-- The job is of the analyzer that is configured now. -/
def AnalysisJob.currentIdentity (options : Option AnalysisOptions) (job : AnalysisJob) : Bool :=
  options.any fun options => job.model = options.model && job.modelSha256 = options.modelSha256 &&
    job.analyzerVersion = CrmControl.analyzerVersion && job.promptVersion = CrmControl.promptVersion &&
    job.policyVersion = some CrmControl.policyVersion

def AnalysisJob.accepted (options : Option AnalysisOptions) (job : AnalysisJob) : Bool :=
  job.status = .ready && job.currentIdentity options &&
    (job.assessmentStatus = some .pass || job.assessmentStatus = some .fail)

def AnalysisJob.message (options : Option AnalysisOptions) (job : AnalysisJob) : String :=
  if job.status = .queued then "Смысловая проверка поставлена в очередь на сервере."
  else if job.status = .running then "Выполняется локальный анализ сохранённых источников."
  else if job.accepted options then job.assessmentMessage.getD "Локальная проверка завершена."
  else if job.status = .error then
    (JsMap.get? (job.errorCode.getD "") analysisErrors).getD "Локальная проверка не завершена."
  else if job.status = .ready && !job.currentIdentity options then
    if options.isSome then "Этот вывод получен другой версией локального анализатора; требуется новая допроверка."
    else "Локальный анализ не настроен; сохранённый вывод не используется в итогах проверки."
  else job.assessmentMessage.getD "Для однозначного вывода не хватает подтверждённых данных."

/-- Compact projection only: of the first job. -/
def crmControlAnalysisProjection (options : Option AnalysisOptions) (jobs : List AnalysisJob) :
    Option AnalysisSummary :=
  jobs.head?.map fun job =>
    { id := job.id, status := job.status
      outcome := if job.accepted options then job.assessmentStatus else none
      message := job.message options, completedAt := job.finishedAt, attempts := job.attemptCount }

/-- Created later, or at the same time with a larger id. -/
def AnalysisJob.newer (a b : AnalysisJob) : Bool :=
  b.createdAt < a.createdAt || (a.createdAt = b.createdAt && !(a.id < b.id))

/-- The relation `analyses` of a result, as every reader includes it: by creation, the last one first, one row. -/
def AnalysisDb.analyses (db : AnalysisDb) (resultId : String) : List AnalysisJob :=
  ((db.jobs.filter fun j => j.resultId = resultId).insertionSort fun a b => a.newer b).take 1

/-! ## The newest job -/

instance : IsTrans AnalysisJob fun a b => a.newer b where
  trans a b c hab hbc := by
    simp only [AnalysisJob.newer, Bool.or_eq_true, Bool.and_eq_true, decide_eq_true_eq, Bool.not_eq_true',
      decide_eq_false_iff_not, not_lt] at *
    rcases hab with hab | ⟨hab, hid⟩ <;> rcases hbc with hbc | ⟨hbc, hid'⟩
    · exact Or.inl (hbc.trans hab)
    · exact Or.inl (hbc ▸ hab)
    · exact Or.inl (hab ▸ hbc)
    · exact Or.inr ⟨hab.trans hbc, hid'.trans hid⟩

instance : Std.Total fun a b : AnalysisJob => a.newer b where
  total a b := by
    simp only [AnalysisJob.newer, Bool.or_eq_true, Bool.and_eq_true, decide_eq_true_eq, Bool.not_eq_true',
      decide_eq_false_iff_not, not_lt]
    rcases lt_trichotomy a.createdAt b.createdAt with h | h | h
    · exact Or.inr (Or.inl h)
    · rcases le_total b.id a.id with hid | hid
      · exact Or.inl (Or.inr ⟨h, hid⟩)
      · exact Or.inr (Or.inr ⟨h.symm, hid⟩)
    · exact Or.inl (Or.inl h)

/-- No other job of its result comes before it. -/
def Newest (db : AnalysisDb) (j : AnalysisJob) : Prop :=
  ∀ k ∈ db.jobs, k.resultId = j.resultId → k.id = j.id ∨ k.newer j = false

/-- The row that every reader sees is the newest one. -/
theorem analyses_of_newest (hids : (db.jobs.map (·.id)).Nodup) {j : AnalysisJob} (hj : j ∈ db.jobs)
    (h : Newest db j) : db.analyses j.resultId = [j] := by
  unfold AnalysisDb.analyses
  rw [List.take_one, Paging.head?_insertionSort (r := j) (List.mem_filter.2 ⟨hj, decide_eq_true rfl⟩),
    Option.toList_some]
  intro k hk
  obtain ⟨hk, hresult⟩ := List.mem_filter.1 hk
  refine (h k hk (of_decide_eq_true hresult)).imp (List.inj_on_of_nodup_map hids hk hj) fun hnewer => ?_
  rw [hnewer]
  exact Bool.false_ne_true

/-! ## Changes of the configuration and of the request -/

/-- One result, with the analyzer that is configured and the request that its sources give. -/
structure AnalysisState where
  options : Option AnalysisOptions
  request : Json
  world : World AnalysisDb AnalysisThread

inductive IdentityAct
  | configure (options : Option AnalysisOptions)
  | observe (request : Json)
  | enqueue (i : ℕ) (snapshotHash : String) (createdAt : ℤ)
  | process (i : ℕ) (a : AnalysisAct)

section Identity

variable (env analyzer) (inputHash : Json → AnalysisOptions → String) (resultId : String)

/-- What `enqueue` builds for the result. -/
def AnalysisState.toRequest (s : AnalysisState) (snapshotHash : String) (options : AnalysisOptions) :
    AnalysisRequest :=
  ⟨resultId, snapshotHash, inputHash s.request options, s.request, options⟩

/-- An enqueue of another result, or no enqueue. -/
def AnalysisAct.other : AnalysisAct → Bool
  | .enqueue r _ => r.resultId ≠ resultId
  | _ => true

def identityStep (s : AnalysisState) : IdentityAct → Option AnalysisState
  | .configure options => some { s with options }
  | .observe request => some { s with request }
  | .enqueue i snapshotHash createdAt =>
    s.options.bind fun options =>
      (World.step (analysisAct env analyzer) s.world
        (i, .enqueue (s.toRequest inputHash resultId snapshotHash options) createdAt)).map fun world =>
          { s with world }
  | .process i a =>
    if a.other resultId then
      (World.step (analysisAct env analyzer) s.world (i, a)).map fun world => { s with world }
    else none

def identityStart (options : Option AnalysisOptions) (request : Json) : AnalysisState :=
  ⟨options, request, analysisStart⟩

variable {env analyzer}

/-- The columns that `enqueue` would write now. -/
def HasIdentity (s : AnalysisState) (j : AnalysisJob) : Prop :=
  ∃ options, s.options = some options ∧ j.resultId = resultId ∧ j.inputHash = inputHash s.request options ∧
    j.analyzerVersion = analyzerVersion ∧ j.promptVersion = promptVersion ∧ j.model = options.model ∧
    j.modelSha256 = options.modelSha256

/-- Every job of the current identity is the newest one, or it is over without a verdict. -/
def Leads (s : AnalysisState) : Prop :=
  ∀ j ∈ s.world.store.jobs, HasIdentity inputHash resultId s j → Newest s.world.store j ∨ j.settled = true

/-- A change does not go back to an identity whose job was overtaken, and a later job is created later. -/
def Forward (s : AnalysisState) : IdentityAct → Prop
  | .configure options => Leads inputHash resultId { s with options }
  | .observe request => Leads inputHash resultId { s with request }
  | .enqueue _ _ createdAt => ∀ j ∈ s.world.store.jobs, j.resultId = resultId → j.createdAt < createdAt
  | .process _ _ => True

/-- A verdict of the current identity is the one that is shown. -/
def ShowsCurrent (s : AnalysisState) : Prop :=
  ∀ j ∈ s.world.store.jobs, HasIdentity inputHash resultId s j → j.accepted s.options = true →
    crmControlAnalysisProjection s.options (s.world.store.analyses resultId) =
      some { id := j.id, status := .ready, outcome := j.assessmentStatus
             message := j.assessmentMessage.getD "Локальная проверка завершена."
             completedAt := j.finishedAt, attempts := j.attemptCount }

variable {inputHash} {resultId} {s s' : AnalysisState}

/-! ## Steps -/

theorem HasIdentity.congr {j j' : AnalysisJob} (hsame : SameJob j j') (hoptions : s'.options = s.options)
    (hrequest : s'.request = s.request) (h : HasIdentity inputHash resultId s' j') :
    HasIdentity inputHash resultId s j := by
  obtain ⟨options, hcurrent, hresult, hhash, hanalyzer, hprompt, hmodel, hsha⟩ := h
  refine ⟨options, hoptions ▸ hcurrent, hsame.resultId ▸ hresult, ?_, hsame.analyzerVersion ▸ hanalyzer,
    hsame.promptVersion ▸ hprompt, hsame.model ▸ hmodel, hsame.modelSha256 ▸ hsha⟩
  rw [← hsame.inputHash, hhash, hrequest]

theorem SameJob.newer_eq {a b a' b' : AnalysisJob} (ha : SameJob a a') (hb : SameJob b b') :
    a'.newer b' = a.newer b := by
  simp only [AnalysisJob.newer, ha.id, hb.id, ha.createdAt, hb.createdAt]

/-- The steps that create no job of the result. -/
theorem Leads.effect (h : Leads inputHash resultId s) (hoptions : s'.options = s.options)
    (hrequest : s'.request = s.request) (heffect : JobEffect True s.world.store s'.world.store) :
    Leads inputHash resultId s' := by
  intro j' hj' hidentity
  obtain ⟨j, hj, hsame, hfrozen⟩ := heffect.jobs.1 j' hj'
  refine (h j hj (hidentity.congr hsame hoptions hrequest)).imp (fun hnewest k' hk' hresult => ?_) fun hsettled => ?_
  · obtain ⟨k, hk, hsame', -⟩ := heffect.jobs.1 k' hk'
    rw [hsame'.id, hsame.id, hsame'.newer_eq hsame]
    exact hnewest k hk (by rw [← hsame'.resultId, ← hsame.resultId, hresult])
  · exact hfrozen hsettled ▸ hsettled

/-- An enqueue of the result under the current identity. -/
theorem Leads.enqueue (h : Leads inputHash resultId s) {options : AnalysisOptions} {snapshotHash : String}
    {createdAt : ℤ} (hcurrent : s.options = some options)
    (hlater : ∀ j ∈ s.world.store.jobs, j.resultId = resultId → j.createdAt < createdAt)
    (hoptions : s'.options = s.options) (hrequest : s'.request = s.request)
    (hstore : s'.world.store =
      s.world.store.enqueue env (s.toRequest inputHash resultId snapshotHash options) createdAt) :
    Leads inputHash resultId s' := by
  intro j hj hidentity
  have hidentity := hidentity.congr (.refl j) hoptions hrequest
  rw [hstore, mem_enqueue] at hj
  rcases hj with hj | ⟨rfl, hnone⟩
  · refine (h j hj hidentity).imp_left fun hnewest k hk hresult => ?_
    rw [hstore, mem_enqueue] at hk
    rcases hk with hk | ⟨rfl, hnone⟩
    · exact hnewest k hk hresult
    · -- the row of this identity was there already
      obtain ⟨options', hcurrent', hjresult, hhash, hanalyzer, -⟩ := hidentity
      obtain rfl : options = options' := Option.some.inj (hcurrent.symm.trans hcurrent')
      exact absurd hanalyzer (hnone j hj hjresult hhash)
  · refine Or.inl fun k hk hresult => ?_
    rw [hstore, mem_enqueue] at hk
    rcases hk with hk | ⟨rfl, -⟩
    · refine Or.inr ?_
      have := hlater k hk hresult
      simp only [AnalysisJob.newer, newJob, this.ne, decide_false, Bool.false_and, Bool.or_false]
      exact decide_eq_false (not_lt.2 this.le)
    · exact Or.inl rfl

/-- An enqueue of another result. -/
theorem Leads.enqueue_other (h : Leads inputHash resultId s) {r : AnalysisRequest} {createdAt : ℤ}
    (hother : r.resultId ≠ resultId) (hoptions : s'.options = s.options) (hrequest : s'.request = s.request)
    (hstore : s'.world.store = s.world.store.enqueue env r createdAt) : Leads inputHash resultId s' := by
  have hold : ∀ j ∈ s'.world.store.jobs, j.resultId = resultId → j ∈ s.world.store.jobs := by
    intro j hj hresult
    rw [hstore, mem_enqueue] at hj
    rcases hj with hj | ⟨rfl, -⟩
    · exact hj
    · exact absurd hresult hother
  intro j hj hidentity
  have hidentity := hidentity.congr (.refl j) hoptions hrequest
  obtain ⟨-, -, hjresult, -⟩ := id hidentity
  refine (h j (hold j hj hjresult) hidentity).imp_left fun hnewest k hk hresult => ?_
  exact hnewest k (hold k hk (hresult.trans hjresult)) hresult

/-- A step of a process. -/
theorem identityStep_process {w : World AnalysisDb AnalysisThread} {i : ℕ} {a : AnalysisAct}
    (hretries : (s.world.locals i).Retries) (h : World.step (analysisAct env analyzer) s.world (i, a) = some w) :
    JobEffect True s.world.store w.store ∨
      ∃ r createdAt, a = .enqueue r createdAt ∧ w.store = s.world.store.enqueue env r createdAt := by
  obtain ⟨db', thread', hact, rfl⟩ := World.step_eq_some.1 h
  exact analysisAct_enqueues hretries hact

/-- **Step lemma.** -/
theorem Leads.step (h : Leads inputHash resultId s) (hretries : ∀ i, (s.world.locals i).Retries) {a : IdentityAct}
    (hforward : Forward inputHash resultId s a) (hstep : identityStep env analyzer inputHash resultId s a = some s') :
    Leads inputHash resultId s' := by
  cases a with
  | configure options => exact Option.some.inj hstep ▸ hforward
  | observe request => exact Option.some.inj hstep ▸ hforward
  | enqueue i snapshotHash createdAt =>
    obtain ⟨options, hoptions, hstep⟩ := Option.bind_eq_some_iff.1 hstep
    obtain ⟨w, hw, rfl⟩ := Option.map_eq_some_iff.1 hstep
    rcases identityStep_process (hretries i) hw with heffect | ⟨r, at', heq, hstore⟩
    · exact h.effect rfl rfl heffect
    · obtain ⟨rfl, rfl⟩ := AnalysisAct.enqueue.inj heq
      exact h.enqueue hoptions hforward rfl rfl hstore
  | process i a =>
    simp only [identityStep] at hstep
    split_ifs at hstep with hother
    obtain ⟨w, hw, rfl⟩ := Option.map_eq_some_iff.1 hstep
    rcases identityStep_process (hretries i) hw with heffect | ⟨r, createdAt, rfl, hstore⟩
    · exact h.effect rfl rfl heffect
    · exact h.enqueue_other (by simpa [AnalysisAct.other] using hother) rfl rfl hstore

/-- The processes take the steps that they take without the configuration. -/
theorem identityStep_world {a : IdentityAct} (h : identityStep env analyzer inputHash resultId s a = some s') :
    Run.Reachable (World.step (analysisAct env analyzer)) s.world s'.world := by
  cases a with
  | configure options => exact Option.some.inj h ▸ .refl _
  | observe request => exact Option.some.inj h ▸ .refl _
  | enqueue i snapshotHash createdAt =>
    obtain ⟨options, -, h⟩ := Option.bind_eq_some_iff.1 h
    obtain ⟨w, hw, rfl⟩ := Option.map_eq_some_iff.1 h
    exact .single trivial hw
  | process i a =>
    simp only [identityStep] at h
    split_ifs at h
    obtain ⟨w, hw, rfl⟩ := Option.map_eq_some_iff.1 h
    exact .single trivial hw

/-! ## The theorem -/

theorem Leads.showsCurrent (h : Leads inputHash resultId s) (hids : (s.world.store.jobs.map (·.id)).Nodup) :
    ShowsCurrent inputHash resultId s := by
  intro j hj hidentity haccepted
  have hready : j.status = .ready := by
    simp only [AnalysisJob.accepted, Bool.and_eq_true, decide_eq_true_eq] at haccepted
    exact haccepted.1.1
  obtain ⟨-, -, hresult, -⟩ := id hidentity
  have hnewest := (h j hj hidentity).resolve_right (by simp [AnalysisJob.settled, hready])
  rw [← hresult, analyses_of_newest hids hj hnewest]
  simp [crmControlAnalysisProjection, AnalysisJob.message, hready, haccepted]

/-- **The current verdict is shown.** In every run that never goes back to an overtaken identity. -/
theorem projection_shows_current {options : Option AnalysisOptions} {request : Json} (h : Run.ReachableVia
    (identityStep env analyzer inputHash resultId) (Forward inputHash resultId) (identityStart options request) s) :
    ShowsCurrent inputHash resultId s := by
  have hinv : Run.Reachable (World.step (analysisAct env analyzer)) analysisStart s.world ∧
      Leads inputHash resultId s := by
    refine h.invariant (I := fun s => Run.Reachable (World.step (analysisAct env analyzer)) analysisStart s.world ∧
      Leads inputHash resultId s) ⟨.refl _, fun j hj => nomatch (show j ∈ [] from hj)⟩ ?_
    rintro s a s' ⟨hreach, hleads⟩ hforward hstep
    exact ⟨hreach.trans (identityStep_world hstep), hleads.step (retries_of_reachable hreach) hforward hstep⟩
  exact hinv.2.showsCurrent (analysis_of_reachable hinv.1).1.ids

end Identity

namespace Sample

def modelHash (_ : Json) (options : AnalysisOptions) : String := options.model

def modelA : AnalysisOptions := ⟨"a", "sha-a"⟩

def modelB : AnalysisOptions := ⟨"b", "sha-b"⟩

/-- A process takes the job of the result and finishes it. -/
def analysis (options : AnalysisOptions) (now : ℤ) : List IdentityAct :=
  [.enqueue 0 "snapshot" now, .process 0 (.processQueue now options), .process 0 .advance, .process 0 .advance,
    .process 0 .advance, .process 0 .advance,
    .process 0 (.finish (now + 1000) (.ready options.model options.model options.modelSha256 "5" .null)
      (some "task_text"))]

/-- The jobs of the new model, if any, would have to be the newest. -/
def isForward (s : AnalysisState) : IdentityAct → Bool
  | .configure options => s.world.store.jobs.all fun j => options.all fun o => j.model ≠ o.model
  | .observe _ => false
  | .enqueue _ _ createdAt => s.world.store.jobs.all fun j => j.createdAt < createdAt
  | .process _ _ => true

theorem forward_of_isForward (s : AnalysisState) (a : IdentityAct) (h : isForward s a = true) :
    Forward modelHash "result" s a := by
  cases a with
  | configure options =>
    rintro j hj ⟨o, ho, -, -, -, -, hmodel, -⟩
    have hne := List.all_eq_true.1 h j hj
    simp only [show options = some o from ho, Option.all_some, decide_eq_true_eq] at hne
    exact absurd hmodel hne
  | observe request => exact nomatch h
  | enqueue i snapshotHash createdAt =>
    intro j hj _
    simpa using List.all_eq_true.1 h j hj
  | process i a => trivial

end Sample

/-- The model is replaced and the result is analysed again. -/
theorem projection_shows_current_sample :
    ∃ s, Run.ReachableVia (identityStep Sample.environment Sample.analyzer Sample.modelHash "result")
        (Forward Sample.modelHash "result") (identityStart (some Sample.modelA) .null) s ∧
      ShowsCurrent Sample.modelHash "result" s ∧
      (crmControlAnalysisProjection s.options (s.world.store.analyses "result")).any (fun summary =>
        summary.outcome = some .fail) = true ∧ s.world.store.jobs.length = 2 := by
  have hrun : (Run.runIf Sample.isForward
      (identityStep Sample.environment Sample.analyzer Sample.modelHash "result")
      (identityStart (some Sample.modelA) .null)
      (Sample.analysis Sample.modelA 0 ++
        .configure (some Sample.modelB) :: Sample.analysis Sample.modelB 10_000)).any
      (fun s => (crmControlAnalysisProjection s.options (s.world.store.analyses "result")).any (fun summary =>
        summary.outcome = some .fail) && s.world.store.jobs.length = 2) = true := by
    decide +kernel
  obtain ⟨s, hreach, hs⟩ := Run.exists_of_runIf Sample.forward_of_isForward hrun
  simp only [Bool.and_eq_true, decide_eq_true_eq] at hs
  exact ⟨s, hreach, projection_shows_current hreach, hs⟩

/-- **A verdict is hidden.** The model is changed and changed back; the last job is of the other model. -/
theorem projection_hides_current :
    ∃ s, Run.Reachable (identityStep Sample.environment Sample.analyzer Sample.modelHash "result")
      (identityStart (some Sample.modelA) .null) s ∧ ¬ ShowsCurrent Sample.modelHash "result" s := by
  have hrun : (Run.run (identityStep Sample.environment Sample.analyzer Sample.modelHash "result")
      (identityStart (some Sample.modelA) .null)
      (Sample.analysis Sample.modelA 0 ++
        [.configure (some Sample.modelB), .enqueue 0 "snapshot" 10_000, .configure (some Sample.modelA)])).any
      (fun s => s.options = some Sample.modelA && s.world.store.jobs.any (fun j => j.accepted s.options &&
        j.resultId = "result" && j.inputHash = "a" &&
        (crmControlAnalysisProjection s.options (s.world.store.analyses "result")).all (·.id ≠ j.id))) = true := by
    decide +kernel
  obtain ⟨s, hreach, hs⟩ := Run.exists_of_run hrun
  refine ⟨s, hreach, fun hshows => ?_⟩
  simp only [Bool.and_eq_true, decide_eq_true_eq] at hs
  obtain ⟨hoptions, hs⟩ := hs
  obtain ⟨j, hj, hs⟩ := List.any_eq_true.1 hs
  simp only [Bool.and_eq_true, decide_eq_true_eq] at hs
  obtain ⟨⟨⟨haccepted, hresult⟩, hhash⟩, hother⟩ := hs
  have hcurrent := id haccepted
  simp only [AnalysisJob.accepted, AnalysisJob.currentIdentity, hoptions, Option.any_some, Bool.and_eq_true,
    decide_eq_true_eq] at hcurrent
  obtain ⟨⟨-, ⟨⟨⟨hmodel, hsha⟩, hanalyzer⟩, hprompt⟩, -⟩, -⟩ := hcurrent
  rw [hshows j hj ⟨Sample.modelA, hoptions, hresult, hhash, hanalyzer, hprompt, hmodel, hsha⟩ haccepted] at hother
  simp at hother

end AmoAnalytics.CrmControl
