import AmoAnalytics.Lib.JsValue
import AmoAnalytics.Lib.SortedInsert
import AmoAnalytics.Quality.IncidentLifecycle

/-!
# The quality of a report

`DataQualityService.status` and `reportQuality`: which incidents concern a report, and the status under which
`saveCachedReport` publishes it. An incident of another scope never blocks a report, but it takes the certificate from
every report, since the overall status is not certified beside any confirmed incident.
-/

namespace AmoAnalytics.Quality

open JsText

/-! ## The rows -/

/-- `QualityScope`; a list that is not given is empty. -/
structure QualityScope where
  global : Bool := false
  pipelineIds : List JsString := []
  managerIds : List JsString := []
  reportNames : List JsString := []
  deriving DecidableEq

/-- The columns of `DataQualityIncident` that the status of a report reads. -/
structure IncidentRow where
  id : ℕ
  connectionId : Option String
  status : IncidentStatus := .open
  scope : QualityScope
  message : String
  firstDetectedAt : ℤ
  confirmedAt : Option ℤ
  deriving DecidableEq

/-- `DataQualityCheck`. -/
structure CheckRow where
  connectionId : Option String
  status : QualityStatus
  startedAt : ℤ
  finishedAt : Option ℤ
  cutoffAt : Option ℤ
  deriving DecidableEq

structure QualityState where
  checks : List CheckRow
  incidents : List IncidentRow

def certificationMaxAgeMs : ℤ := 2 * 60000

def reportSourceToleranceMs : ℤ := 90000

/-! ## The order of the incidents -/

/-- `confirmedAt DESC, firstDetectedAt DESC`; a null comes first. -/
def IncidentRow.listedBefore (a b : IncidentRow) : Prop :=
  match a.confirmedAt, b.confirmedAt with
  | none, none => b.firstDetectedAt ≤ a.firstDetectedAt
  | none, some _ => True
  | some _, none => False
  | some x, some y => y < x ∨ x = y ∧ b.firstDetectedAt ≤ a.firstDetectedAt

instance : DecidableRel IncidentRow.listedBefore := fun a b => by
  unfold IncidentRow.listedBefore
  split <;> infer_instance

instance : Std.Total IncidentRow.listedBefore where
  total a b := by
    unfold IncidentRow.listedBefore
    rcases a.confirmedAt with _ | x <;> rcases b.confirmedAt with _ | y <;> simp only [or_true, true_or] <;> omega

instance : IsTrans IncidentRow IncidentRow.listedBefore where
  trans a b c := by
    unfold IncidentRow.listedBefore
    rcases a.confirmedAt with _ | x <;> rcases b.confirmedAt with _ | y <;> rcases c.confirmedAt with _ | z <;>
      intro hab hbc <;> dsimp only at hab hbc ⊢ <;> omega

/-! ## The status -/

namespace QualityState

variable (state : QualityState)

/-- `findFirst({ orderBy: { startedAt: 'desc' } })`. -/
def latestCheck : Option CheckRow :=
  (state.checks.insertionSort fun a b => b.startedAt ≤ a.startedAt).head?

/-- `{ status: 'OPEN', connectionId }`. -/
def openOf (connectionId : Option String) : List IncidentRow :=
  state.incidents.filter fun row => row.status = .open && row.connectionId = connectionId

/-- The incidents that `status` reads. -/
def listed (connectionId : Option String) : List IncidentRow :=
  ((state.openOf connectionId).insertionSort IncidentRow.listedBefore).take 50

end QualityState

/-- What `status` returns, as far as the reports read it. -/
structure CurrentStatus where
  overall : QualityStatus
  checkedAt : Option ℤ
  cutoffAt : Option ℤ
  incidents : List IncidentRow

/-- `formatStatus`. -/
def formatStatus (checkStatus : QualityStatus) (incidents : List IncidentRow) (cutoffAt : Option ℤ) (checkedAt : ℤ) :
    CurrentStatus where
  overall := if (incidents.filter fun row => row.status = .open && row.confirmedAt.isSome).isEmpty then checkStatus
    else .blocked
  checkedAt := some checkedAt
  cutoffAt := cutoffAt
  incidents := incidents

def QualityState.status (state : QualityState) (now : ℤ) : CurrentStatus :=
  match state.latestCheck with
  | none => ⟨.checking, none, none, []⟩
  | some check =>
    let checkedAt := check.finishedAt.getD check.startedAt
    let incidents := state.listed check.connectionId
    if certificationMaxAgeMs < now - checkedAt then formatStatus .checking incidents check.cutoffAt checkedAt
    else formatStatus check.status incidents check.cutoffAt checkedAt

/-! ## The scope of an incident -/

/-- `ReportQualityInput`; `filters` is an object, or undefined. -/
structure ReportQualityInput where
  name : Option JsString
  filters : JsValue

/-- `a ?? b`. -/
def nullish (a b : JsValue) : JsValue :=
  match a with
  | .undefined | .null => b
  | a => a

/-- `stringArray`; a value that cannot become a text throws. -/
def stringArray : JsValue → Option (List JsString)
  | .arr items => items.mapM JsValue.text
  | .undefined | .null => some []
  | value => value.text.map fun text => [text]

def ReportQualityInput.pipelineIds (input : ReportQualityInput) : Option (List JsString) :=
  stringArray (nullish (input.filters.get "pipelineIds") (input.filters.get "pipelineId"))

def ReportQualityInput.managerIds (input : ReportQualityInput) : Option (List JsString) :=
  stringArray (nullish (nullish (input.filters.get "managerIds") (input.filters.get "responsibleIds"))
    (input.filters.get "responsibleId"))

/-- `scopeMatches`. -/
def scopeMatches (scope : QualityScope) (input : ReportQualityInput) : Option Bool :=
  if scope.global then some true
  else if input.name.any fun name => name ≠ [] && scope.reportNames.contains name then some true
  else do
    let pipelineIds ← input.pipelineIds
    let managerIds ← input.managerIds
    some (scope.pipelineIds.any pipelineIds.contains || scope.managerIds.any managerIds.contains ||
      (scope.reportNames.isEmpty && scope.pipelineIds.isEmpty && scope.managerIds.isEmpty))

/-- The incidents whose scope matches. -/
def applicable (input : ReportQualityInput) : List IncidentRow → Option (List IncidentRow)
  | [] => some []
  | row :: rows => do
    let matching ← scopeMatches row.scope input
    let rest ← applicable input rows
    some (if matching then row :: rest else rest)

/-! ## The status of a report -/

structure ReportQuality where
  status : QualityStatus
  checkedAt : Option ℤ
  cutoffAt : Option ℤ
  incidentId : Option ℕ
  reason : Option String
  deriving DecidableEq

def checkingReason : String := "Данные проходят проверку"

/-- What `reportQuality` returns without an incident that blocks the report. -/
def unblockedQuality (current : CurrentStatus) (sourceSyncAt : Option ℤ) : ReportQuality :=
  let sourceIsCurrent := sourceSyncAt.any fun syncAt =>
    current.cutoffAt.any fun cutoffAt => cutoffAt - reportSourceToleranceMs ≤ syncAt
  let status := if current.overall = .certified ∧ sourceIsCurrent then .certified else .checking
  ⟨status, current.checkedAt, current.cutoffAt, none, if status = .checking then some checkingReason else none⟩

def reportQuality (input : ReportQualityInput) (sourceSyncAt : Option ℤ) (current : CurrentStatus) :
    Option ReportQuality :=
  (applicable input current.incidents).map fun matching =>
    match matching.find? (·.confirmedAt.isSome) with
    | some blocked => ⟨.blocked, current.checkedAt, current.cutoffAt, some blocked.id, some blocked.message⟩
    | none => unblockedQuality current sourceSyncAt

/-- `saveCachedReport` publishes the payload. -/
def ReportQuality.publishes (quality : ReportQuality) (enforce : Bool) : Bool :=
  !enforce || quality.status = .certified

/-! ## The incidents of the evaluations -/

def Scope.toQualityScope : Scope → QualityScope
  | .global => { global := true }
  | .reportNames names => { reportNames := names.map js }

def Incident.row (incident : Incident) : IncidentRow :=
  ⟨incident.id, incident.connectionId, incident.status, incident.scope.toQualityScope, incident.message,
    incident.firstDetectedAt, incident.confirmedAt⟩

/-- Every incident has the code of a finding. -/
def CodesKnown (db : QualityDb) : Prop := ∀ incident ∈ db.incidents, incident.code ∈ findingCodes

theorem CodesKnown.step {release : Release} {db db' : QualityDb} {evaluation : Evaluation} (h : CodesKnown db)
    (hinv : QualityInv db) (hstep : qualityStep release db evaluation = some db') : CodesKnown db' := by
  obtain ⟨-, rfl⟩ := qualityStep_eq_some hstep
  intro incident hmem
  have hcodes := evaluation.readings.findings_codes_nodup release
  rcases mem_synchronizeIncidents hinv.table hcodes hmem with ⟨row, hrow, rfl⟩ | ⟨finding, hfinding, id, -, rfl⟩
  · obtain ⟨-, finding, -, -, hrow'⟩ | ⟨-, -, hrow'⟩ | ⟨-, hrow'⟩ := evaluated_cases evaluation.connectionId
      (evaluation.readings.findings release) evaluation.startedAt row
    · rw [hrow']; exact h row hrow
    · rw [hrow']; exact h row hrow
    · rw [hrow']; exact h row hrow
  · have hmem := (List.mem_filter.1 hfinding).1
    exact (evaluation.readings.findings_codes_sublist release).subset (List.mem_map_of_mem hmem)

/-- After any run of evaluations a connection has at most ten open incidents: `status` reads them all. -/
theorem open_incidents_le_ten {release : Release} {clock : ℤ} {db : QualityDb}
    (h : Run.Reachable (qualityStep release) { clock := clock } db) (checks : List CheckRow)
    (connectionId : Option String) :
    (QualityState.openOf ⟨checks, db.incidents.map Incident.row⟩ connectionId).length ≤ 10 := by
  have hboth : QualityInv db ∧ CodesKnown db :=
    h.invariant (I := fun db => QualityInv db ∧ CodesKnown db)
      ⟨qualityInv_start clock, fun _ hmem => absurd hmem List.not_mem_nil⟩
      fun _ _ _ hinv _ hstep => ⟨hinv.1.step hstep, hinv.2.step hinv.1 hstep⟩
  have hrows : QualityState.openOf ⟨checks, db.incidents.map Incident.row⟩ connectionId =
      (db.openIncidents connectionId).map Incident.row := by
    rw [QualityState.openOf, List.filter_map]
    rfl
  have hnodup : ((db.openIncidents connectionId).map (·.code)).Nodup := by
    rw [List.Nodup, List.pairwise_map]
    refine (hboth.1.table.open_.sublist List.filter_sublist).imp_of_mem fun ha hb hab hcode => ?_
    have hca := openKey_of_concerns (List.mem_filter.1 ha).2
    have hcb := openKey_of_concerns (List.mem_filter.1 hb).2
    exact hab _ hca (hcode ▸ hcb)
  have hsubset : (db.openIncidents connectionId).map (·.code) ⊆ findingCodes := by
    intro code hcode
    obtain ⟨incident, hmem, rfl⟩ := List.mem_map.1 hcode
    exact hboth.2 incident (List.mem_filter.1 hmem).1
  have hle := (List.subperm_of_subset hnodup hsubset).length_le
  rw [hrows, List.length_map]
  rwa [List.length_map] at hle

theorem open_incidents_le_ten_sample : ∃ db : QualityDb, db.incidents.length = 1 ∧
    (QualityState.openOf ⟨[], db.incidents.map Incident.row⟩ none).length ≤ 10 := by
  have hrun : Run.run (qualityStep Sample.build) { clock := 0 } Sample.connecting = some _ := rfl
  exact ⟨_, rfl, open_incidents_le_ten (Run.reachable_of_run hrun) [] none⟩

/-! ## An incident of another scope -/

section

variable {input : ReportQualityInput} {row : IncidentRow}

theorem applicable_append (xs ys : List IncidentRow) :
    applicable input (xs ++ ys) =
      (applicable input xs).bind fun first => (applicable input ys).map fun second => first ++ second := by
  induction xs with
  | nil => simp [applicable]
  | cons x xs ih =>
    rw [List.cons_append, applicable, applicable, ih]
    cases scopeMatches x.scope input with
    | none => rfl
    | some matching =>
      cases applicable input xs with
      | none => rfl
      | some first => cases applicable input ys <;> cases matching <;> rfl

/-- An incident of another scope changes nothing among the incidents that concern the report. -/
theorem applicable_adds (hscope : scopeMatches row.scope input = some false) {base inserted : List IncidentRow}
    (h : SortedInsert.Adds row base inserted) : applicable input inserted = applicable input base := by
  obtain ⟨before, after, rfl, rfl⟩ := h
  have hrow : applicable input (row :: after) = applicable input after := by
    rw [applicable, hscope]
    cases applicable input after <;> rfl
  rw [applicable_append, applicable_append, hrow]

variable {checks : List CheckRow} {l₁ l₂ : List IncidentRow}

theorem openOf_of_ne {connectionId : Option String} (h : row.connectionId ≠ connectionId) :
    QualityState.openOf ⟨checks, l₁ ++ row :: l₂⟩ connectionId =
      QualityState.openOf ⟨checks, l₁ ++ l₂⟩ connectionId := by
  simp only [QualityState.openOf, List.filter_append]
  rw [List.filter_cons_of_neg (by simp [h])]

/-- With room for all open incidents, one more is added to what `status` reads. -/
theorem listed_adds (hopen : row.status = .open)
    (hroom : (QualityState.openOf ⟨checks, l₁ ++ row :: l₂⟩ row.connectionId).length ≤ 50) :
    SortedInsert.Adds row (QualityState.listed ⟨checks, l₁ ++ l₂⟩ row.connectionId)
      (QualityState.listed ⟨checks, l₁ ++ row :: l₂⟩ row.connectionId) := by
  have hfilter : QualityState.openOf ⟨checks, l₁ ++ row :: l₂⟩ row.connectionId =
      QualityState.openOf ⟨checks, l₁⟩ row.connectionId ++
        row :: QualityState.openOf ⟨checks, l₂⟩ row.connectionId := by
    simp only [QualityState.openOf, List.filter_append]
    rw [List.filter_cons_of_pos (by simp [hopen])]
  have hbase : QualityState.openOf ⟨checks, l₁ ++ l₂⟩ row.connectionId =
      QualityState.openOf ⟨checks, l₁⟩ row.connectionId ++ QualityState.openOf ⟨checks, l₂⟩ row.connectionId :=
    List.filter_append _ _
  have hshort : (QualityState.openOf ⟨checks, l₁ ++ l₂⟩ row.connectionId).length ≤ 50 := by
    rw [hfilter, List.length_append, List.length_cons] at hroom
    rw [hbase, List.length_append]
    omega
  rw [QualityState.listed, QualityState.listed, List.take_of_length_le (by rwa [List.length_insertionSort]),
    List.take_of_length_le (by rwa [List.length_insertionSort]), hfilter, hbase]
  exact SortedInsert.adds_insertionSort row _ _

end

/-- What an incident of another scope leaves of a quality: no certificate. -/
def ReportQuality.uncertified (quality : ReportQuality) : ReportQuality :=
  if quality.status = .certified then { quality with status := .checking, reason := some checkingReason } else quality

theorem uncertified_spec (q : ReportQuality) :
    (q.uncertified.status = .blocked ↔ q.status = .blocked) ∧ q.uncertified.incidentId = q.incidentId ∧
      ∀ enforce, q.uncertified.publishes enforce = (q.publishes enforce && (!enforce || !true)) := by
  unfold ReportQuality.uncertified ReportQuality.publishes
  split
  · next hcertified =>
    refine ⟨by simp [hcertified], rfl, fun enforce => ?_⟩
    cases enforce <;> simp
  · next hcertified =>
    refine ⟨Iff.rfl, rfl, fun enforce => ?_⟩
    cases enforce <;> simp [hcertified]

theorem formatStatus_adds {row : IncidentRow} (hopen : row.status = .open) (hconfirmed : row.confirmedAt.isSome)
    {base inserted : List IncidentRow} (h : SortedInsert.Adds row base inserted) (checkStatus : QualityStatus)
    (cutoffAt : Option ℤ) (checkedAt : ℤ) :
    formatStatus checkStatus inserted cutoffAt checkedAt =
      { formatStatus checkStatus base cutoffAt checkedAt with overall := .blocked, incidents := inserted } := by
  obtain ⟨before, after, rfl, rfl⟩ := h
  have hany : (before ++ row :: after).filter (fun row => row.status = .open && row.confirmedAt.isSome) ≠ [] := by
    rw [Ne, List.filter_eq_nil_iff]
    intro hnone
    exact hnone row (by simp) (by simp [hopen, hconfirmed])
  rw [formatStatus, formatStatus, if_neg (by simpa using hany)]

theorem unblockedQuality_blocked (current : CurrentStatus) (sourceSyncAt : Option ℤ) :
    unblockedQuality { current with overall := .blocked } sourceSyncAt =
      (unblockedQuality current sourceSyncAt).uncertified := by
  unfold unblockedQuality ReportQuality.uncertified
  simp only
  split_ifs <;> simp_all

theorem reportQuality_adds {input : ReportQualityInput} {row : IncidentRow} (current : CurrentStatus)
    {inserted : List IncidentRow} (hscope : scopeMatches row.scope input = some false)
    (h : SortedInsert.Adds row current.incidents inserted) (sourceSyncAt : Option ℤ) :
    reportQuality input sourceSyncAt { current with overall := .blocked, incidents := inserted } =
      (reportQuality input sourceSyncAt current).map ReportQuality.uncertified := by
  have hunblocked := unblockedQuality_blocked current sourceSyncAt
  rw [reportQuality, reportQuality, applicable_adds hscope h, Option.map_map]
  congr 1
  funext matching
  rw [Function.comp_apply]
  cases matching.find? (·.confirmedAt.isSome) with
  | none => exact hunblocked
  | some blocked => rfl

/-- What the report of a state with one more confirmed incident of another scope is. -/
theorem status_adds {checks : List CheckRow} {l₁ l₂ : List IncidentRow} {row : IncidentRow} {check : CheckRow}
    (hcheck : QualityState.latestCheck ⟨checks, l₁⟩ = some check)
    (hconnection : check.connectionId = row.connectionId) (hopen : row.status = .open)
    (hconfirmed : row.confirmedAt.isSome)
    (hroom : (QualityState.openOf ⟨checks, l₁ ++ row :: l₂⟩ row.connectionId).length ≤ 50) (now : ℤ) :
    SortedInsert.Adds row (QualityState.status ⟨checks, l₁ ++ l₂⟩ now).incidents
        (QualityState.listed ⟨checks, l₁ ++ row :: l₂⟩ row.connectionId) ∧
      QualityState.status ⟨checks, l₁ ++ row :: l₂⟩ now =
        { QualityState.status ⟨checks, l₁ ++ l₂⟩ now with
          overall := .blocked
          incidents := QualityState.listed ⟨checks, l₁ ++ row :: l₂⟩ row.connectionId } := by
  have hlisted := listed_adds hopen hroom
  have hbase : QualityState.latestCheck ⟨checks, l₁ ++ l₂⟩ = some check := hcheck
  have hmore : QualityState.latestCheck ⟨checks, l₁ ++ row :: l₂⟩ = some check := hcheck
  unfold QualityState.status
  rw [hbase, hmore]
  simp only [hconnection]
  split
  · exact ⟨hlisted, formatStatus_adds hopen hconfirmed hlisted _ _ _⟩
  · exact ⟨hlisted, formatStatus_adds hopen hconfirmed hlisted _ _ _⟩

/-- The report of a state with one more confirmed incident of another scope: the status and the incident that blocks
it are the same, but a certified report is checked again, and waits under enforcement. -/
theorem report_quality_scope {checks : List CheckRow} {l₁ l₂ : List IncidentRow} {row : IncidentRow}
    {input : ReportQualityInput} (hopen : row.status = .open) (hconfirmed : row.confirmedAt.isSome)
    (hscope : scopeMatches row.scope input = some false)
    (hroom : (QualityState.openOf ⟨checks, l₁ ++ row :: l₂⟩ row.connectionId).length ≤ 50)
    (sourceSyncAt : Option ℤ) (now : ℤ) :
    let quality := reportQuality input sourceSyncAt (QualityState.status ⟨checks, l₁ ++ l₂⟩ now)
    let quality' := reportQuality input sourceSyncAt (QualityState.status ⟨checks, l₁ ++ row :: l₂⟩ now)
    let read := (QualityState.latestCheck ⟨checks, l₁⟩).any fun check => check.connectionId = row.connectionId
    quality' = (if read then quality.map ReportQuality.uncertified else quality) ∧
      ∀ q ∈ quality, ∀ q' ∈ quality',
        (q'.status = .blocked ↔ q.status = .blocked) ∧ q'.incidentId = q.incidentId ∧
        ∀ enforce, q'.publishes enforce = (q.publishes enforce && (!enforce || !read)) := by
  intro quality quality' read
  have heq : quality' = if read then quality.map ReportQuality.uncertified else quality := by
    rcases hcheck : QualityState.latestCheck ⟨checks, l₁⟩ with _ | check
    · -- nothing was checked yet, so no incident is read
      have hread : read = false := by simp [read, hcheck]
      have hbase : QualityState.latestCheck ⟨checks, l₁ ++ l₂⟩ = none := hcheck
      have hmore : QualityState.latestCheck ⟨checks, l₁ ++ row :: l₂⟩ = none := hcheck
      rw [hread, if_neg Bool.false_ne_true]
      simp only [quality, quality', QualityState.status, hbase, hmore]
    · by_cases hconnection : check.connectionId = row.connectionId
      · have hread : read = true := by simp [read, hcheck, hconnection]
        obtain ⟨hadds, hstatus⟩ := status_adds hcheck hconnection hopen hconfirmed hroom now
        rw [hread, if_pos rfl]
        simp only [quality, quality']
        rw [hstatus]
        exact reportQuality_adds _ hscope hadds sourceSyncAt
      · have hread : read = false := by simp [read, hcheck, hconnection]
        have hbase : QualityState.latestCheck ⟨checks, l₁ ++ l₂⟩ = some check := hcheck
        have hmore : QualityState.latestCheck ⟨checks, l₁ ++ row :: l₂⟩ = some check := hcheck
        have hrows : QualityState.openOf ⟨checks, l₁ ++ row :: l₂⟩ check.connectionId =
            QualityState.openOf ⟨checks, l₁ ++ l₂⟩ check.connectionId := openOf_of_ne (Ne.symm hconnection)
        rw [hread, if_neg Bool.false_ne_true]
        simp only [quality, quality', QualityState.status, hbase, hmore, QualityState.listed, hrows]
  refine ⟨heq, fun q hq q' hq' => ?_⟩
  rw [heq] at hq'
  cases hread : read with
  | false =>
    rw [hread, if_neg Bool.false_ne_true, hq] at hq'
    obtain rfl := Option.some.inj hq'
    exact ⟨Iff.rfl, rfl, fun enforce => by simp⟩
  | true =>
    rw [hread, if_pos rfl, hq] at hq'
    obtain rfl := Option.some.inj hq'
    exact uncertified_spec q

namespace Sample

def certifiedCheck : CheckRow := ⟨some "amo", .certified, 1000, some 2000, some 1000⟩

/-- A confirmed incident of one pipeline. -/
def pipelineIncident (id : ℕ) (pipelineId : String) (time : ℤ) : IncidentRow :=
  ⟨id, some "amo", .open, { pipelineIds := [js pipelineId] }, "mismatch", time, some time⟩

def salesInput : ReportQualityInput where
  name := some (js "Sales")
  filters := .obj [(js "pipelineIds", .arr [.str (js "sales")])]

def salesQuality (incidents : List IncidentRow) : Option QualityStatus :=
  (reportQuality salesInput (some 1000) (QualityState.status ⟨[certifiedCheck], incidents⟩ 3000)).map (·.status)

/-- An incident of the pipeline, and 49 newer ones of another. -/
def fiftyIncidents : List IncidentRow :=
  pipelineIncident 0 "sales" 0 :: (List.range 49).map fun i => pipelineIncident (i + 1) "csm" (i + 1)

end Sample

open Sample

theorem report_quality_scope_sample :
    salesQuality [] = some .certified ∧ salesQuality [pipelineIncident 1 "csm" 500] = some .checking := by
  have hscope : scopeMatches (pipelineIncident 1 "csm" 500).scope salesInput = some false := by decide +kernel
  have hroom : (QualityState.openOf ⟨[certifiedCheck], [] ++ pipelineIncident 1 "csm" 500 :: []⟩
      (some "amo")).length ≤ 50 := by decide +kernel
  have hquality := (report_quality_scope rfl rfl hscope hroom (some 1000) 3000).1
  have hbase : salesQuality [] = some .certified := by decide +kernel
  refine ⟨hbase, ?_⟩
  have hmap := congrArg (Option.map (·.status)) hquality
  rw [salesQuality] at hbase ⊢
  exact hmap.trans (by decide +kernel)

/-- One more incident of another pipeline takes the certificate from the report; where fifty incidents are open, it
also hides the incident that blocks the report. -/
theorem unrelated_incident_seen :
    scopeMatches (pipelineIncident 50 "csm" 500).scope salesInput = some false ∧
      salesQuality [] = some .certified ∧ salesQuality [pipelineIncident 50 "csm" 500] = some .checking ∧
      salesQuality fiftyIncidents = some .blocked ∧
      salesQuality (fiftyIncidents ++ [pipelineIncident 50 "csm" 500]) = some .checking := by
  decide +kernel

end AmoAnalytics.Quality
