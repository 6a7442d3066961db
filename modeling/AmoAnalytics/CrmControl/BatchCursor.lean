import AmoAnalytics.CrmControl.AnalysisBatch
import AmoAnalytics.CrmControl.AnalysisSafety

/-!
# The cursor of a batch

A batch has counted and handled exactly the observations up to its cursor (`BatchOk`). A page is
saved under the lease of its process, but the page starts at the cursor that the process read before
it claimed the batch; the batch may have moved on in between. `FromStoredCursor` is the condition that
it has not.
-/

namespace AmoAnalytics.CrmControl

open Transaction

variable {env : Env} {analyzer : Analyzer} {audit : SavedAudit}

/-! ## Jobs stay -/

/-- The analysis has a job for the result. -/
def AnalysisDb.Enqueued (db : AnalysisDb) (resultId : String) : Prop :=
  ∃ j ∈ db.jobs, j.resultId = resultId

/-- Every result that had a job has one still. -/
def KeepsJobs (db db' : AnalysisDb) : Prop := ∀ resultId, db.Enqueued resultId → db'.Enqueued resultId

namespace KeepsJobs

variable {db db' : AnalysisDb}

theorem refl (db : AnalysisDb) : KeepsJobs db db := fun _ => id

theorem update {p : AnalysisJob → Bool} {f : AnalysisJob → AnalysisJob}
    (hf : ∀ j, (f j).resultId = j.resultId) (hjobs : db'.jobs = Table.updateWhere p f db.jobs) :
    KeepsJobs db db' := by
  rintro resultId ⟨j, hj, hresult⟩
  refine ⟨_, hjobs ▸ Table.mem_updateWhere_of_mem hj, ?_⟩
  split_ifs
  · exact (hf j).trans hresult
  · exact hresult

/-- A transaction of an update and the record of the attempt. -/
theorem attempt {p : AnalysisJob → Bool} {f : AnalysisJob → AnalysisJob} {row : Attempt}
    (hf : ∀ j, (f j).resultId = j.resultId) (h : (db.updateJobs p f).insertAttempt row = .ok db') :
    KeepsJobs db db' := by
  obtain rfl := insertAttempt_ok h
  exact update hf rfl

theorem enqueue (r : AnalysisRequest) (createdAt : ℤ) : KeepsJobs db (db.enqueue env r createdAt) := by
  rintro resultId ⟨j, hj, hresult⟩
  unfold AnalysisDb.enqueue
  split_ifs
  · exact ⟨j, hj, hresult⟩
  · exact ⟨j, List.mem_append_left _ hj, hresult⟩

theorem advance {thread thread' : AnalysisThread} (h : thread.advance env db = (db', thread')) :
    KeepsJobs db db' := by
  have hsame : ∀ {next : AnalysisThread}, (db, next) = (db', thread') → KeepsJobs db db' := by
    rintro next heq
    obtain ⟨rfl, rfl⟩ := Prod.mk.inj heq
    exact refl db
  cases thread with
  | recovering now options expired =>
    simp only [AnalysisThread.advance] at h
    split at h
    · rename_i db₁ hrecover
      obtain ⟨rfl, rfl⟩ := Prod.mk.inj h
      unfold CrmControl.recoverExpired at hrecover
      split at hrecover
      · exact attempt (f := (·.expire now _)) (fun _ => rfl) hrecover
      · exact Except.ok.inj hrecover ▸ refl db
    · exact hsame h
  | retiring now options ids =>
    obtain ⟨rfl, rfl⟩ := Prod.mk.inj h
    exact update (f := (·.retire now)) (fun _ => rfl) rfl
  | claiming now options candidate =>
    have hclaim : ∀ {claimed : Option AnalysisJob} {db₁ : AnalysisDb},
        claim env now candidate db = .ok (db₁, claimed) → KeepsJobs db db₁ := by
      intro claimed db₁ hclaim
      unfold CrmControl.claim at hclaim
      split at hclaim
      · dsimp only at hclaim
        split at hclaim
        · cases hclaim
        · obtain ⟨rfl, -⟩ := Prod.mk.inj (Except.ok.inj hclaim)
          exact update (f := (·.claim now (env.uuid db.drawn))) (fun _ => rfl) rfl
      · exact (Prod.mk.inj (Except.ok.inj hclaim)).1 ▸ refl db
    simp only [AnalysisThread.advance] at h
    split at h
    · rename_i hok
      exact (Prod.mk.inj h).1 ▸ hclaim hok
    · rename_i hok
      exact (Prod.mk.inj h).1 ▸ hclaim hok
    · exact hsame h
  | extending job requestKey =>
    obtain ⟨rfl, rfl⟩ := Prod.mk.inj h
    refine commit_induction (refl db) fun db' hdb => ?_
    unfold CrmControl.extendBudget at hdb
    dsimp only at hdb
    split at hdb
    · obtain ⟨rfl, -⟩ := insertGrant_ok hdb
      exact update (f := (·.requeue _)) (fun _ => rfl) rfl
    · exact Except.ok.inj hdb ▸ refl db
  | _ =>
    simp only [AnalysisThread.advance] at h
    repeat' (first | exact hsame h | split at h)

/-- No process of the analysis removes a job. -/
theorem analysisAct {thread thread' : AnalysisThread} {a : AnalysisAct}
    (h : CrmControl.analysisAct env analyzer db thread a = some (db', thread')) : KeepsJobs db db' := by
  unfold CrmControl.analysisAct at h
  split at h
  case h_1 => cases h; exact enqueue _ _
  case h_2 => cases h; exact refl db
  case h_3 => split at h <;> cases h <;> exact refl db
  case h_4 options job now outcome rule =>
    cases h
    refine commit_induction (refl db) fun db' hdb => ?_
    unfold CrmControl.finish at hdb
    split at hdb
    · exact attempt (f := (·.finish now (retryDelay job) _)) (fun _ => rfl) hdb
    · exact Except.ok.inj hdb ▸ refl db
  case h_5 => cases h
  case h_6 => cases h
  case h_7 => exact advance (Option.some.inj h)
  case h_8 => cases h; exact refl db
  case h_9 => cases h

end KeepsJobs

/-- The job that `enqueue` leaves behind. -/
theorem AnalysisDb.enqueued_enqueue (db : AnalysisDb) (r : AnalysisRequest) (createdAt : ℤ) :
    (db.enqueue env r createdAt).Enqueued r.resultId := by
  unfold AnalysisDb.enqueue
  split_ifs with hany
  · obtain ⟨j, hj, hmatch⟩ := List.any_eq_true.1 hany
    exact ⟨j, hj, (of_decide_eq_true hmatch).1⟩
  · exact ⟨_, List.mem_append_right _ (List.mem_singleton_self _), rfl⟩

/-! ## What a batch has handled -/

/-- The result has a job or is recorded as deferred. -/
def Handled (analysis : AnalysisDb) (deferred : List String) (resultId : String) : Prop :=
  analysis.Enqueued resultId ∨ resultId ∈ deferred

theorem Handled.mono {analysis analysis' : AnalysisDb} {deferred deferred' : List String} {resultId : String}
    (h : Handled analysis deferred resultId) (hjobs : KeepsJobs analysis analysis')
    (hdeferred : ∀ r ∈ deferred, r ∈ deferred') : Handled analysis' deferred' resultId :=
  h.imp (hjobs resultId) (hdeferred resultId)

/-- The observation does not lie after the cursor. -/
def Passed (cursor : Option String) (o : Observation) : Prop := Paging.after cursor o.id = false

/-- A batch has counted and handled what its cursor has passed; a completed one has passed all. -/
structure BatchOk (audit : SavedAudit) (analysis : AnalysisDb) (b : AnalysisBatch) : Prop where
  onRow : Paging.OnRow Observation.id b.cursor (audit.inScope b)
  processed : b.processed = Paging.countUpTo Observation.id b.cursor (audit.inScope b)
  deferred : b.deferred = b.deferredResults.length
  handled : ∀ o ∈ audit.inScope b, Passed b.cursor o → ∀ r ∈ audit.openResults o,
    Handled analysis b.deferredResults r.id
  done : b.status = .completed → ∀ o ∈ audit.inScope b, Passed b.cursor o

/-- The observations of a batch are found by their ids. -/
theorem SavedAudit.inScope_nodup (audit : SavedAudit) (b : AnalysisBatch) :
    ((audit.inScope b).map Observation.id).Nodup :=
  Paging.nodup_filter audit.id_unique _

/-- The update that leaves the progress as it is. -/
structure SameProgress (audit : SavedAudit) (b b' : AnalysisBatch) : Prop where
  id : b'.id = b.id
  scope : audit.inScope b' = audit.inScope b
  cursor : b'.cursor = b.cursor
  processed : b'.processed = b.processed
  deferred : b'.deferred = b.deferred
  deferredResults : b'.deferredResults = b.deferredResults
  done : b'.status = .completed → b.status = .completed

theorem BatchOk.same {analysis : AnalysisDb} {b b' : AnalysisBatch} (h : BatchOk audit analysis b)
    (hsame : SameProgress audit b b') : BatchOk audit analysis b' where
  onRow := by rw [hsame.scope, hsame.cursor]; exact h.onRow
  processed := by rw [hsame.scope, hsame.cursor, hsame.processed]; exact h.processed
  deferred := by rw [hsame.deferred, hsame.deferredResults]; exact h.deferred
  handled := by rw [hsame.scope, hsame.cursor, hsame.deferredResults]; exact h.handled
  done := by rw [hsame.scope, hsame.cursor]; exact fun hdone => h.done (hsame.done hdone)

theorem BatchOk.analysis {analysis analysis' : AnalysisDb} {b : AnalysisBatch}
    (h : BatchOk audit analysis b) (hjobs : KeepsJobs analysis analysis') : BatchOk audit analysis' b :=
  { h with
    handled := fun o ho hpassed r hr => (h.handled o ho hpassed r hr).mono hjobs fun _ => id }

/-! ## What a process knows -/

/-- The candidate was read from the table, and its cursor stands on a row. -/
structure KnowsBatch (env : Env) (audit : SavedAudit) (db : BatchDb) (candidate : AnalysisBatch) : Prop where
  drawn : ∃ n < db.drawn, candidate.id = env.uuid n
  scope : ∀ b ∈ db.batches, b.id = candidate.id → audit.inScope b = audit.inScope candidate
  onRow : Paging.OnRow Observation.id candidate.cursor (audit.inScope candidate)

/-- The rows are the page after the cursor of the candidate, and every open result of theirs is still
to be done or handled. -/
structure PageOk (audit : SavedAudit) (analysis : AnalysisDb) (candidate : AnalysisBatch)
    (page : BatchPage) : Prop where
  rows : page.rows = audit.page candidate
  handled : ∀ o ∈ page.rows, ∀ r ∈ audit.openResults o,
    (o, r) ∈ page.todo ∨ Handled analysis page.deferred r.id

def ThreadOk (env : Env) (audit : SavedAudit) (db : BatchDb) : BatchThread → Prop
  | .claiming _ candidate => KnowsBatch env audit db candidate
  | .claimed lease => KnowsBatch env audit db lease.candidate
  | .reading lease => KnowsBatch env audit db lease.candidate
  | .failing lease => KnowsBatch env audit db lease.candidate
  | .results lease page => KnowsBatch env audit db lease.candidate ∧
      PageOk audit db.analysis lease.candidate page
  | .owned lease page => KnowsBatch env audit db lease.candidate ∧
      PageOk audit db.analysis lease.candidate page
  -- The result at work has its job.
  | .errorJob lease page _ => KnowsBatch env audit db lease.candidate ∧
      PageOk audit db.analysis lease.candidate page.queue
  | .retrying lease page _ => KnowsBatch env audit db lease.candidate ∧
      PageOk audit db.analysis lease.candidate page.queue
  | _ => True

/-- The page of a candidate, whose cursor is never the empty text. -/
theorem page_eq (audit : SavedAudit) {candidate : AnalysisBatch}
    (h : Paging.OnRow Observation.id candidate.cursor (audit.inScope candidate)) :
    audit.page candidate =
      Paging.page Observation.id candidate.cursor batchPageSize (audit.inScope candidate) := by
  unfold SavedAudit.page
  congr 1
  rcases hcursor : candidate.cursor with _ | c
  · rfl
  · obtain ⟨o, ho, rfl⟩ := h c hcursor
    have hne : o.id ≠ "" := audit.id_nonempty o (List.mem_filter.1 ho).1
    simp [hne]

/-- What is passed after a page was passed before it or is a row of the page. -/
theorem passed_page {candidate : AnalysisBatch} {rows : List Observation}
    (h : Paging.OnRow Observation.id candidate.cursor (audit.inScope candidate)) (hrows : rows = audit.page candidate)
    {o : Observation} (ho : o ∈ audit.inScope candidate)
    (hpassed : Passed (Paging.nextCursor Observation.id candidate.cursor rows) o) :
    Passed candidate.cursor o ∨ o ∈ rows := by
  rw [page_eq audit h] at hrows
  by_cases hbefore : Passed candidate.cursor o
  · exact Or.inl hbefore
  · refine Or.inr ?_
    rw [hrows]
    exact Paging.mem_page_of_passed (audit.inScope_nodup candidate) h ho (eq_true_of_ne_false hbefore)
      (hrows ▸ hpassed)

/-- After a page that is not full everything is passed. -/
theorem passed_of_short {candidate : AnalysisBatch} {rows : List Observation}
    (h : Paging.OnRow Observation.id candidate.cursor (audit.inScope candidate)) (hrows : rows = audit.page candidate)
    (hshort : rows.length < batchPageSize) {o : Observation} (ho : o ∈ audit.inScope candidate) :
    Passed (Paging.nextCursor Observation.id candidate.cursor rows) o := by
  rw [page_eq audit h] at hrows
  have hnil := Paging.rest_next_of_short (n := batchPageSize) (audit.inScope_nodup candidate) h (hrows ▸ hshort)
  by_contra hafter
  have hmem : o ∈ Paging.rest Observation.id (Paging.nextCursor Observation.id candidate.cursor
      (Paging.page Observation.id candidate.cursor batchPageSize (audit.inScope candidate)))
      (audit.inScope candidate) :=
    Paging.mem_rest.2 ⟨ho, hrows ▸ eq_true_of_ne_false hafter⟩
  rw [hnil] at hmem
  cases hmem

theorem PageOk.of (candidate : AnalysisBatch) (analysis : AnalysisDb) :
    PageOk audit analysis candidate (.of audit (audit.page candidate)) where
  rows := rfl
  handled := by
    intro o ho r hr
    exact Or.inl (List.mem_flatMap.2 ⟨o, ho, List.mem_map.2 ⟨r, hr, rfl⟩⟩)

theorem PageOk.mono {analysis analysis' : AnalysisDb} {candidate : AnalysisBatch} {page : BatchPage}
    (h : PageOk audit analysis candidate page) (hjobs : KeepsJobs analysis analysis') :
    PageOk audit analysis' candidate page where
  rows := h.rows
  handled := fun o ho r hr => (h.handled o ho r hr).imp id fun hdone => hdone.mono hjobs fun _ => id

/-- The first result of the page gets its job. -/
theorem PageOk.queue {analysis : AnalysisDb} {candidate : AnalysisBatch} {page : BatchPage}
    {o : Observation} {result : ResultRow} {todo : List (Observation × ResultRow)}
    (h : PageOk audit analysis candidate page) (htodo : page.todo = (o, result) :: todo)
    (hjob : analysis.Enqueued result.id) : PageOk audit analysis candidate page.queue where
  rows := h.rows
  handled := by
    intro o' ho r hr
    rcases h.handled o' ho r hr with hmem | hdone
    · rw [htodo] at hmem
      rcases List.mem_cons.1 hmem with heq | hrest
      · obtain ⟨-, rfl⟩ := Prod.mk.inj heq
        exact Or.inr (Or.inl hjob)
      · exact Or.inl (by rw [BatchPage.queue, htodo]; exact hrest)
    · exact Or.inr hdone

/-- The first result of the page is deferred. -/
theorem PageOk.defer {analysis : AnalysisDb} {candidate : AnalysisBatch} {page : BatchPage}
    {o : Observation} {result : ResultRow} {todo : List (Observation × ResultRow)}
    (h : PageOk audit analysis candidate page) (htodo : page.todo = (o, result) :: todo) :
    PageOk audit analysis candidate page.defer where
  rows := h.rows
  handled := by
    have hdeferred : page.defer.deferred = result.id :: page.deferred := by
      rw [BatchPage.defer, htodo]
      rfl
    intro o' ho r hr
    rcases h.handled o' ho r hr with hmem | hdone
    · rw [htodo] at hmem
      rcases List.mem_cons.1 hmem with heq | hrest
      · obtain ⟨-, rfl⟩ := Prod.mk.inj heq
        exact Or.inr (Or.inr (hdeferred ▸ List.mem_cons_self))
      · exact Or.inl (by rw [BatchPage.defer, htodo]; exact hrest)
    · exact Or.inr (hdone.mono (.refl _) fun x hx => hdeferred ▸ List.mem_cons_of_mem _ hx)

/-! ## Saving a page -/

/-- A page saved from the cursor where it begins. -/
theorem BatchOk.advance {db : BatchDb} {candidate b : AnalysisBatch} {page : BatchPage} {now : ℤ}
    (h : BatchOk audit db.analysis b) (hpage : PageOk audit db.analysis candidate page)
    (htodo : page.todo = []) (hscope : audit.inScope b = audit.inScope candidate)
    (hcursor : b.cursor = candidate.cursor) :
    BatchOk audit db.analysis (b.advance candidate page now) := by
  have honRow : Paging.OnRow Observation.id candidate.cursor (audit.inScope candidate) := by
    rw [← hscope, ← hcursor]
    exact h.onRow
  have hkey := audit.inScope_nodup candidate
  have hrows : page.rows =
      Paging.page Observation.id candidate.cursor batchPageSize (audit.inScope candidate) :=
    hpage.rows.trans (page_eq audit honRow)
  have hinScope : audit.inScope (b.advance candidate page now) = audit.inScope candidate := hscope
  refine ⟨?_, ?_, ?_, ?_, ?_⟩
  · rw [hinScope]
    show Paging.OnRow Observation.id (Paging.nextCursor _ candidate.cursor page.rows) _
    rw [hrows]
    exact honRow.next hkey
  · rw [hinScope]
    show b.processed + page.rows.length = Paging.countUpTo _ (Paging.nextCursor _ candidate.cursor page.rows) _
    rw [hrows, Paging.countUpTo_next hkey honRow, h.processed, hscope, hcursor]
  · show b.deferred + page.deferred.length = (page.deferred ++ b.deferredResults).length
    rw [List.length_append, h.deferred, add_comm]
  · rw [hinScope]
    intro o ho hpassed r hr
    show Handled db.analysis (page.deferred ++ b.deferredResults) r.id
    by_cases hbefore : Passed b.cursor o
    · exact (h.handled o (hscope ▸ ho) hbefore r hr).mono (.refl _) fun x hx => List.mem_append_right _ hx
    · have hrow : o ∈ page.rows :=
        (passed_page honRow hpage.rows ho hpassed).resolve_left fun h => hbefore (hcursor ▸ h)
      rcases hpage.handled o hrow r hr with hmem | hdone
      · rw [htodo] at hmem
        cases hmem
      · exact hdone.mono (.refl _) fun x hx => List.mem_append_left _ hx
  · rw [hinScope]
    intro hdone o ho
    have hshort : page.rows.length < batchPageSize := by
      by_contra hfull
      have hstatus : (b.advance candidate page now).status = .queued := if_neg hfull
      exact absurd (hstatus.symm.trans hdone) (by decide)
    exact passed_of_short honRow hpage.rows hshort ho

/-! ## The invariant -/

structure BatchInv (env : Env) (audit : SavedAudit) (db : BatchDb) : Prop where
  id_unique : (db.batches.map (·.id)).Nodup
  drawn : ∀ b ∈ db.batches, ∃ n < db.drawn, b.id = env.uuid n
  ok : ∀ b ∈ db.batches, BatchOk audit db.analysis b

/-- What a step does to the tables: jobs stay, a row is an old one with its scope or a new one, and no
cursor moves back. -/
structure BatchMoves (env : Env) (audit : SavedAudit) (db db' : BatchDb) : Prop where
  drawn : db.drawn ≤ db'.drawn
  jobs : KeepsJobs db.analysis db'.analysis
  old : ∀ b' ∈ db'.batches, (∃ b ∈ db.batches, b.id = b'.id ∧ audit.inScope b = audit.inScope b') ∨
    ∃ n, db.drawn ≤ n ∧ b'.id = env.uuid n
  cursor : ∀ b ∈ db.batches, ∃ b' ∈ db'.batches, b'.id = b.id ∧ Paging.NotBefore b.cursor b'.cursor

theorem BatchMoves.refl (db : BatchDb) : BatchMoves env audit db db where
  drawn := le_rfl
  jobs := .refl _
  old := fun b hb => Or.inl ⟨b, hb, rfl, rfl⟩
  cursor := fun b hb => ⟨b, hb, rfl, .refl _⟩

theorem BatchMoves.trans {db₁ db₂ db₃ : BatchDb} (h₁₂ : BatchMoves env audit db₁ db₂)
    (h₂₃ : BatchMoves env audit db₂ db₃) : BatchMoves env audit db₁ db₃ where
  drawn := h₁₂.drawn.trans h₂₃.drawn
  jobs := fun resultId hjob => h₂₃.jobs resultId (h₁₂.jobs resultId hjob)
  old := by
    intro b₃ hb₃
    rcases h₂₃.old b₃ hb₃ with ⟨b₂, hb₂, hid₂, hscope₂⟩ | ⟨n, hn, hid⟩
    · rcases h₁₂.old b₂ hb₂ with ⟨b₁, hb₁, hid₁, hscope₁⟩ | ⟨n, hn, hid⟩
      · exact Or.inl ⟨b₁, hb₁, hid₁.trans hid₂, hscope₁.trans hscope₂⟩
      · exact Or.inr ⟨n, hn, hid₂.symm.trans hid⟩
    · exact Or.inr ⟨n, h₁₂.drawn.trans hn, hid⟩
  cursor := by
    intro b₁ hb₁
    obtain ⟨b₂, hb₂, hid₂, hcursor₂⟩ := h₁₂.cursor b₁ hb₁
    obtain ⟨b₃, hb₃, hid₃, hcursor₃⟩ := h₂₃.cursor b₂ hb₂
    exact ⟨b₃, hb₃, hid₃.trans hid₂, hcursor₂.trans hcursor₃⟩

variable {db : BatchDb}

theorem KnowsBatch.moves {db' : BatchDb} {candidate : AnalysisBatch}
    (h : KnowsBatch env audit db candidate) (hmoves : BatchMoves env audit db db') :
    KnowsBatch env audit db' candidate where
  drawn := by
    obtain ⟨n, hn, hid⟩ := h.drawn
    exact ⟨n, hn.trans_le hmoves.drawn, hid⟩
  scope := by
    intro b' hb' hid
    rcases hmoves.old b' hb' with ⟨b, hb, hsame, hscope⟩ | ⟨n, hn, hnew⟩
    · rw [← hscope]
      exact h.scope b hb (hsame.trans hid)
    · -- A new row has a new id.
      obtain ⟨m, hm, hold⟩ := h.drawn
      have heq : n = m := env.uuid_injective (hnew.symm.trans (hid.trans hold))
      omega
  onRow := h.onRow

theorem ThreadOk.moves {db' : BatchDb} {thread : BatchThread} (h : ThreadOk env audit db thread)
    (hmoves : BatchMoves env audit db db') : ThreadOk env audit db' thread := by
  cases thread with
  | claiming => exact KnowsBatch.moves h hmoves
  | claimed => exact KnowsBatch.moves h hmoves
  | reading => exact KnowsBatch.moves h hmoves
  | failing => exact KnowsBatch.moves h hmoves
  | results => exact ⟨h.1.moves hmoves, h.2.mono hmoves.jobs⟩
  | owned => exact ⟨h.1.moves hmoves, h.2.mono hmoves.jobs⟩
  | errorJob => exact ⟨h.1.moves hmoves, h.2.mono hmoves.jobs⟩
  | retrying => exact ⟨h.1.moves hmoves, h.2.mono hmoves.jobs⟩
  | _ => trivial

theorem BatchInv.eq_of_id (h : BatchInv env audit db) {b b' : AnalysisBatch} (hb : b ∈ db.batches)
    (hb' : b' ∈ db.batches) (hid : b.id = b'.id) : b = b' :=
  List.inj_on_of_nodup_map h.id_unique hb hb' hid

theorem BatchInv.knows (h : BatchInv env audit db) {b : AnalysisBatch} (hb : b ∈ db.batches) :
    KnowsBatch env audit db b where
  drawn := h.drawn b hb
  scope := fun _ hb' hid => congrArg audit.inScope (h.eq_of_id hb' hb hid)
  onRow := (h.ok b hb).onRow

/-- A row that an update may leave in the place of another. -/
structure Advances (audit : SavedAudit) (analysis : AnalysisDb) (b b' : AnalysisBatch) : Prop where
  id : b'.id = b.id
  scope : audit.inScope b' = audit.inScope b
  cursor : Paging.NotBefore b.cursor b'.cursor
  ok : BatchOk audit analysis b'

theorem SameProgress.advances {analysis : AnalysisDb} {b b' : AnalysisBatch}
    (h : SameProgress audit b b') (hok : BatchOk audit analysis b) : Advances audit analysis b b' where
  id := h.id
  scope := h.scope
  cursor := by rw [h.cursor]; exact .refl _
  ok := hok.same h

/-- An update of the batches, with identifiers drawn. -/
theorem BatchInv.update (h : BatchInv env audit db) {p : AnalysisBatch → Bool}
    {f : AnalysisBatch → AnalysisBatch} {drawn : ℕ} (hdrawn : db.drawn ≤ drawn)
    (hf : ∀ b ∈ db.batches, p b = true → Advances audit db.analysis b (f b)) :
    BatchInv env audit { db.updateBatches p f with drawn := drawn } ∧
      BatchMoves env audit db { db.updateBatches p f with drawn := drawn } := by
  have hrow : ∀ b ∈ db.batches, Advances audit db.analysis b (if p b = true then f b else b) := by
    intro b hb
    by_cases hp : p b = true
    · rw [if_pos hp]
      exact hf b hb hp
    · rw [if_neg hp]
      exact ⟨rfl, rfl, .refl _, h.ok b hb⟩
  refine ⟨⟨?_, ?_, ?_⟩, ⟨hdrawn, .refl _, ?_, ?_⟩⟩
  · have hids : (Table.updateWhere p f db.batches).map (·.id) = db.batches.map (·.id) := by
      unfold Table.updateWhere
      rw [List.map_map]
      exact List.map_congr_left fun b hb => (hrow b hb).id
    exact hids ▸ h.id_unique
  · intro b' hb'
    obtain ⟨b, hb, rfl⟩ := Table.mem_updateWhere.1 hb'
    obtain ⟨n, hn, hid⟩ := h.drawn b hb
    exact ⟨n, hn.trans_le hdrawn, (hrow b hb).id.trans hid⟩
  · intro b' hb'
    obtain ⟨b, hb, rfl⟩ := Table.mem_updateWhere.1 hb'
    exact (hrow b hb).ok
  · intro b' hb'
    obtain ⟨b, hb, rfl⟩ := Table.mem_updateWhere.1 hb'
    exact Or.inl ⟨b, hb, (hrow b hb).id.symm, (hrow b hb).scope.symm⟩
  · intro b hb
    exact ⟨_, Table.mem_updateWhere_of_mem hb, (hrow b hb).id, (hrow b hb).cursor⟩

/-- An update that leaves the progress of every batch as it is. -/
theorem BatchInv.updateSame (h : BatchInv env audit db) {p : AnalysisBatch → Bool}
    {f : AnalysisBatch → AnalysisBatch} {drawn : ℕ} (hdrawn : db.drawn ≤ drawn)
    (hf : ∀ b, SameProgress audit b (f b)) :
    BatchInv env audit { db.updateBatches p f with drawn := drawn } ∧
      BatchMoves env audit db { db.updateBatches p f with drawn := drawn } :=
  h.update hdrawn fun b hb _ => (hf b).advances (h.ok b hb)

/-- A step of the analysis. -/
theorem BatchInv.analysis (h : BatchInv env audit db) {analysis : AnalysisDb}
    (hjobs : KeepsJobs db.analysis analysis) :
    BatchInv env audit { db with analysis := analysis } ∧
      BatchMoves env audit db { db with analysis := analysis } :=
  ⟨⟨h.id_unique, h.drawn, fun b hb => (h.ok b hb).analysis hjobs⟩,
    ⟨le_rfl, hjobs, fun b hb => Or.inl ⟨b, hb, rfl, rfl⟩, fun b hb => ⟨b, hb, rfl, .refl _⟩⟩⟩

/-- A new batch. -/
theorem BatchInv.upsert (h : BatchInv env audit db) (runId : String) (scope : AnalysisScope)
    (requestKey : String) (createdAt : ℤ) :
    BatchInv env audit (db.upsert env runId scope requestKey createdAt) ∧
      BatchMoves env audit db (db.upsert env runId scope requestKey createdAt) := by
  unfold BatchDb.upsert
  split_ifs
  · exact ⟨h, .refl db⟩
  · refine ⟨⟨?_, ?_, ?_⟩, ⟨Nat.le_succ _, .refl _, ?_, ?_⟩⟩
    · rw [List.map_append, List.map_singleton]
      refine h.id_unique.append (List.nodup_singleton _) (List.disjoint_singleton.2 fun hmem => ?_)
      obtain ⟨b, hb, hid⟩ := List.mem_map.1 hmem
      obtain ⟨n, hn, hold⟩ := h.drawn b hb
      have heq : n = db.drawn := env.uuid_injective (hold.symm.trans hid)
      omega
    · refine List.forall_mem_append.2 ⟨fun b hb => ?_, fun b hb => ?_⟩
      · obtain ⟨n, hn, hid⟩ := h.drawn b hb
        exact ⟨n, Nat.lt_succ_of_lt hn, hid⟩
      · rw [List.mem_singleton.1 hb]
        exact ⟨db.drawn, Nat.lt_succ_self _, rfl⟩
    · refine List.forall_mem_append.2 ⟨h.ok, fun b hb => ?_⟩
      rw [List.mem_singleton.1 hb]
      exact ⟨nofun, Paging.countUpTo_none.symm, rfl, fun _ _ hpassed => absurd hpassed nofun,
        nofun⟩
    · refine List.forall_mem_append.2 ⟨fun b hb => Or.inl ⟨b, hb, rfl, rfl⟩, fun b hb => ?_⟩
      rw [List.mem_singleton.1 hb]
      exact Or.inr ⟨db.drawn, le_rfl, rfl⟩
    · exact fun b hb => ⟨b, List.mem_append_left _ hb, rfl, .refl _⟩

/-! ## One step -/

/-- A page that is saved under its lease begins at the cursor that the batch still has. -/
def FromStoredCursor (db : BatchDb) (thread : BatchThread) (a : BatchAct) : Prop :=
  match thread, a with
  | .results lease page, .advance now => page.todo = [] →
    ∀ b ∈ db.batches, lease.holds now b = true → b.cursor = lease.candidate.cursor
  | _, _ => True

theorem whileHeld_spec (h : BatchInv env audit db) (lease : BatchLease) (now : ℤ) (next : BatchThread)
    {db' : BatchDb} {thread' : BatchThread}
    (hact : whileHeld lease now db (·.renew now) next = (db', thread')) :
    BatchInv env audit db' ∧ BatchMoves env audit db db' ∧ (thread' = next ∨ thread' = .idle) := by
  unfold whileHeld at hact
  split_ifs at hact
  · cases hact
    have hspec := h.updateSame (p := lease.holds now) (f := (·.renew now)) (le_refl db.drawn)
      fun b => ⟨rfl, rfl, rfl, rfl, rfl, rfl, id⟩
    exact ⟨hspec.1, hspec.2, Or.inl rfl⟩
  · cases hact
    exact ⟨h, .refl _, Or.inr rfl⟩

/-- The candidate of a page is a batch of the table. -/
theorem BatchDb.candidate_mem {now : ℤ} {candidate : AnalysisBatch}
    (h : db.candidate now = some candidate) : candidate ∈ db.batches := by
  have hmem := List.mem_of_mem_head? (Option.mem_def.2 h)
  rw [List.mem_insertionSort] at hmem
  exact (List.mem_filter.1 hmem).1

/-- `enqueue` for the first result of the page. -/
theorem enqueueResult_spec (h : BatchInv env audit db) {lease : BatchLease} {page : BatchPage}
    {o : Observation} {result : ResultRow} {todo : List (Observation × ResultRow)}
    (hthread : ThreadOk env audit db (.owned lease page)) (htodo : page.todo = (o, result) :: todo)
    {outcome : EnqueueOutcome} {db' : BatchDb} {thread' : BatchThread}
    (hact : enqueueResult lease page o result db env outcome = (db', thread')) :
    BatchInv env audit db' ∧ ThreadOk env audit db' thread' ∧ BatchMoves env audit db db' := by
  obtain ⟨hknows, hpage⟩ := hthread
  cases outcome with
  | job inputHash request options createdAt =>
    unfold enqueueResult at hact
    dsimp only at hact
    have hjobs := @KeepsJobs.enqueue env db.analysis
      ⟨result.id, o.snapshotHash, inputHash, request, options⟩ createdAt
    have hjob := @AnalysisDb.enqueued_enqueue env db.analysis
      ⟨result.id, o.snapshotHash, inputHash, request, options⟩ createdAt
    obtain ⟨hinv, hmoves⟩ := h.analysis hjobs
    split at hact
    all_goals
      cases hact
      exact ⟨hinv, ⟨hknows.moves hmoves, (hpage.mono hjobs).queue htodo hjob⟩, hmoves⟩
  | badRequest => cases hact; exact ⟨h, ⟨hknows, hpage.defer htodo⟩, .refl _⟩
  | disabled => cases hact; exact ⟨h, hknows, .refl _⟩
  | failed => cases hact; exact ⟨h, hknows, .refl _⟩

theorem batchAct_spec (h : BatchInv env audit db) {thread thread' : BatchThread} {a : BatchAct}
    {db' : BatchDb} (hthread : ThreadOk env audit db thread) (hG : FromStoredCursor db thread a)
    (hact : batchAct env analyzer audit db thread a = some (db', thread')) :
    BatchInv env audit db' ∧ ThreadOk env audit db' thread' ∧ BatchMoves env audit db db' := by
  have hsame : ∀ {next : BatchThread}, ThreadOk env audit db next →
      BatchInv env audit db ∧ ThreadOk env audit db next ∧ BatchMoves env audit db db :=
    fun hnext => ⟨h, hnext, .refl db⟩
  have henqueued : ∀ {db : BatchDb} (next : Option ℤ), ThreadOk env audit db (.enqueued next) := by
    intro db next
    cases next <;> trivial
  unfold batchAct at hact
  split at hact
  case h_1 => split at hact <;> cases hact <;> exact hsame trivial
  case h_2 => cases hact; exact hsame trivial
  case h_3 now _ =>
    cases hact
    obtain ⟨hinv, hmoves⟩ := h.updateSame (p := expiredBatch now) (f := (·.expire)) (le_refl db.drawn)
      fun b => ⟨rfl, rfl, rfl, rfl, rfl, rfl, nofun⟩
    exact ⟨hinv, trivial, hmoves⟩
  case h_4 => cases hact; exact hsame trivial
  case h_5 => split at hact <;> cases hact <;> exact hsame trivial
  case h_6 =>
    split at hact <;> cases hact
    · exact hsame (henqueued _)
    · exact hsame trivial
  case h_7 =>
    cases hact
    obtain ⟨hinv, hmoves⟩ := h.upsert _ _ _ _
    exact ⟨hinv, henqueued _, hmoves⟩
  case h_8 now _ =>
    split at hact
    · rename_i candidate hcandidate
      cases hact
      exact hsame (h.knows (BatchDb.candidate_mem hcandidate))
    · cases hact
      exact hsame trivial
  case h_9 now candidate _ =>
    split at hact
    · rename_i db₁ hclaim
      cases hact
      unfold BatchDb.claim at hclaim
      split_ifs at hclaim
      cases hclaim
      obtain ⟨hinv, hmoves⟩ := h.updateSame (p := claimableBatch candidate)
        (f := (·.claim now (env.uuid db.drawn))) (Nat.le_succ db.drawn)
        fun b => ⟨rfl, rfl, rfl, rfl, rfl, rfl, nofun⟩
      exact ⟨hinv, KnowsBatch.moves hthread hmoves, hmoves⟩
    · cases hact
      exact hsame trivial
  case h_10 => split at hact <;> cases hact <;> exact hsame hthread
  case h_11 => cases hact; exact hsame ⟨hthread, .of _ _⟩
  case h_12 lease page now =>
    split at hact
    · rename_i htodo
      cases hact
      obtain ⟨hknows, hpage⟩ := hthread
      have hG' := hG htodo
      obtain ⟨hinv, hmoves⟩ := h.update (p := lease.holds now)
        (f := (·.advance lease.candidate page now)) (le_refl db.drawn) fun b hb hholds => by
          have hid : b.id = lease.candidate.id := by
            simp only [BatchLease.holds, Bool.and_eq_true, decide_eq_true_eq] at hholds
            exact hholds.1.1.1.1
          have hscope := hknows.scope b hb hid
          have hcursor := hG' b hb hholds
          have hok : BatchOk audit db.analysis (b.advance lease.candidate page now) :=
            (h.ok b hb).advance hpage htodo hscope hcursor
          refine ⟨rfl, rfl, ?_, hok⟩
          show Paging.NotBefore b.cursor (Paging.nextCursor _ lease.candidate.cursor page.rows)
          rw [hcursor, hpage.rows, page_eq audit hknows.onRow]
          exact .next (audit.inScope_nodup _) hknows.onRow
      exact ⟨hinv, trivial, hmoves⟩
    · obtain ⟨hinv, hmoves, hnext⟩ := whileHeld_spec h lease now _ (Option.some.inj hact)
      refine ⟨hinv, ?_, hmoves⟩
      rcases hnext with rfl | rfl
      · exact (show ThreadOk env audit db (.owned lease page) from hthread).moves hmoves
      · trivial
  case h_13 lease page outcome =>
    split at hact
    · cases hact
    · rename_i o result todo htodo
      split_ifs at hact
      · cases hact
        exact hsame ⟨hthread.1, hthread.2.defer htodo⟩
      · exact enqueueResult_spec h hthread htodo (Option.some.inj hact)
  case h_14 lease page jobId now =>
    obtain ⟨hinv, hmoves, hnext⟩ := whileHeld_spec h lease now _ (Option.some.inj hact)
    refine ⟨hinv, ?_, hmoves⟩
    rcases hnext with rfl | rfl
    · exact (show ThreadOk env audit db (.errorJob lease page jobId) from hthread).moves hmoves
    · trivial
  case h_15 => cases hact; exact hsame hthread
  case h_16 lease page retry _ _ =>
    cases hact
    have hjobs : KeepsJobs db.analysis (retry.advance env db.analysis).1 := KeepsJobs.advance rfl
    obtain ⟨hinv, hmoves⟩ := h.analysis hjobs
    exact ⟨hinv, (show ThreadOk env audit db (.retrying lease page retry) from hthread).moves hmoves, hmoves⟩
  case h_17 lease now =>
    cases hact
    obtain ⟨hinv, hmoves⟩ := h.updateSame (p := lease.holds now) (f := (·.fail lease.candidate now))
      (le_refl db.drawn) fun b => ⟨rfl, rfl, rfl, rfl, rfl, rfl, fun hdone => by
        unfold AnalysisBatch.fail at hdone
        dsimp only at hdone
        split at hdone <;> cases hdone⟩
    exact ⟨hinv, trivial, hmoves⟩
  case h_18 => cases hact; exact hsame hthread
  case h_19 => cases hact; exact hsame hthread.1
  case h_20 => cases hact; exact hsame hthread.1
  case h_21 => cases hact; exact hsame hthread.1
  case h_22 => cases hact; exact hsame hthread.1
  case h_23 =>
    obtain ⟨p, hp, heq⟩ := Option.map_eq_some_iff.1 hact
    cases heq
    obtain ⟨hinv, hmoves⟩ := h.analysis (KeepsJobs.analysisAct hp)
    exact ⟨hinv, trivial, hmoves⟩
  case h_24 =>
    obtain ⟨p, hp, heq⟩ := Option.map_eq_some_iff.1 hact
    cases heq
    obtain ⟨hinv, hmoves⟩ := h.analysis (KeepsJobs.analysisAct hp)
    exact ⟨hinv, trivial, hmoves⟩
  case h_25 => cases hact; exact hsame trivial
  case h_26 => cases hact

/-! ## Runs -/

/-- No batch, and every process idle. -/
def batchStart : World BatchDb BatchThread := .start {} .idle

/-- Runs in which every page is saved from the cursor that the batch has. -/
abbrev BatchRun (env : Env) (analyzer : Analyzer) (audit : SavedAudit)
    (w w' : World BatchDb BatchThread) : Prop :=
  Run.ReachableVia (World.step (batchAct env analyzer audit))
    (fun w a => FromStoredCursor w.store (w.locals a.1) a.2) w w'

theorem batchInv_empty : BatchInv env audit {} where
  id_unique := List.nodup_nil
  drawn := fun _ hb => absurd hb List.not_mem_nil
  ok := fun _ hb => absurd hb List.not_mem_nil

theorem BatchRun.invariant {w : World BatchDb BatchThread}
    (h : BatchRun env analyzer audit batchStart w) :
    BatchInv env audit w.store ∧ ∀ i, ThreadOk env audit w.store (w.locals i) :=
  World.guarded_invariant (I := BatchInv env audit) (L := ThreadOk env audit)
    (R := BatchMoves env audit) h ⟨batchInv_empty, fun _ => trivial⟩
    (fun _ _ _ _ _ hinv hthread hG hact => batchAct_spec hinv hthread hG hact)
    fun _ _ _ _ hthread hmoves => hthread.moves hmoves

/-- **The cursor of a batch counts exactly.** Whatever the processes of the batches and of the analysis
do, in a run where every page is saved from the cursor that the batch has, a batch has processed as
many observations of its scope as lie up to its cursor, the cursor does not move back, and every open
result of a completed batch has a job or is recorded as deferred. -/
theorem batch_cursor_exact {w w' : World BatchDb BatchThread}
    (h : BatchRun env analyzer audit batchStart w) (h' : BatchRun env analyzer audit w w')
    {b : AnalysisBatch} (hb : b ∈ w'.store.batches) :
    b.processed = Paging.countUpTo Observation.id b.cursor (audit.inScope b) ∧
      (∀ b₀ ∈ w.store.batches, b₀.id = b.id → Paging.NotBefore b₀.cursor b.cursor) ∧
      b.deferred = b.deferredResults.length ∧
      (b.status = .completed → ∀ o ∈ audit.inScope b, ∀ r ∈ audit.openResults o,
        Handled w'.store.analysis b.deferredResults r.id) := by
  have hinv := h.invariant
  have hinv' : BatchInv env audit w'.store := (BatchRun.invariant (h.trans h')).1
  have hmoves : BatchMoves env audit w.store w'.store :=
    World.guarded_stable (I := BatchInv env audit) (L := ThreadOk env audit)
      (R := BatchMoves env audit) h' hinv .refl (fun _ _ _ => .trans)
      (fun _ _ _ _ _ hinv hthread hG hact => batchAct_spec hinv hthread hG hact)
      fun _ _ _ _ hthread hmoves => hthread.moves hmoves
  have hok := hinv'.ok b hb
  refine ⟨hok.processed, fun b₀ hb₀ hid => ?_, hok.deferred, fun hdone o ho r hr => ?_⟩
  · obtain ⟨b₁, hb₁, hid₁, hcursor⟩ := hmoves.cursor b₀ hb₀
    rwa [← hinv'.eq_of_id hb₁ hb (hid₁.trans hid)]
  · exact hok.handled o ho (hok.done hdone o ho) r hr

section Sample

/-- The observation number `n` of one run. -/
def sampleObservation (n : ℕ) : Observation where
  id := Sample.uuid n
  runId := "run"
  dealId := "amo:1"
  dealExternalId := "1"
  dealTitle := "Сделка"
  dealUrl := "https://crm.example/1"
  managerId := some "manager"
  managerName := none
  groupId := none
  groupName := none
  department := .sales
  pipelineId := "pipeline"
  pipelineName := "Продажи"
  stageId := "stage"
  stageName := "Новая"
  observedAt := 0
  snapshot := .null
  snapshotHash := "hash"
  counts := {}

def sampleOpenResult : ResultRow := ⟨"result", Sample.uuid 0, "task_text", "", "", .review, "", [], [], none⟩

/-- A finished run of `n` observations, the first with an open result that gives no request. -/
def sampleAudit (n : ℕ) : SavedAudit where
  observations := (List.range n).map sampleObservation
  id_unique := by
    rw [List.map_map]
    exact List.nodup_range.map Sample.uuid_injective
  id_nonempty := by
    intro o ho
    obtain ⟨k, -, rfl⟩ := List.mem_map.1 ho
    exact fun h => absurd (congrArg String.toList h) (by simp [sampleObservation, Sample.uuid, List.replicate_succ])
  results := [sampleOpenResult]
  buildRequest := fun _ _ => none

/-- A run of three observations is one page. -/
theorem batch_cursor_exact_sample :
    ∃ w' b, BatchRun Sample.environment Sample.analyzer (sampleAudit 3) batchStart w' ∧ w'.store.batches = [b] ∧
      b.status = .completed ∧
      b.processed = Paging.countUpTo Observation.id b.cursor ((sampleAudit 3).inScope b) ∧
      b.deferredResults = ["result"] ∧ b.deferred = 1 := by
  have hrun : ∃ w' b, BatchRun Sample.environment Sample.analyzer (sampleAudit 3) batchStart w' ∧
      w'.store.batches = [b] ∧ b.status = .completed ∧ b.deferredResults = ["result"] := by
    refine ⟨_, _, ((Run.ReachableVia.single
        (a := (0, .request "run" ⟨"OWNER", none, none⟩ "manual")) trivial rfl).trans
      ((Run.ReachableVia.single (a := (0, .advance 0)) trivial rfl).trans
      (.single (a := (0, .advance 0)) trivial rfl))).trans
      ((((Run.ReachableVia.single (a := (0, .processQueue 1)) trivial rfl).trans
      ((Run.ReachableVia.single (a := (0, .advance 1)) trivial rfl).trans
      (.single (a := (0, .latest none)) trivial rfl))).trans
      ((Run.ReachableVia.single (a := (0, .advance 1)) trivial rfl).trans
      ((Run.ReachableVia.single (a := (0, .advance 1)) trivial rfl).trans
      (.single (a := (0, .advance 1)) trivial rfl)))).trans
      ((Run.ReachableVia.single (a := (0, .advance 1)) trivial rfl).trans
      ((Run.ReachableVia.single (a := (0, .advance 2)) nofun rfl).trans
      ((Run.ReachableVia.single (a := (0, .enqueue .badRequest)) trivial rfl).trans
      (.single (a := (0, .advance 3)) ?_ rfl))))), rfl, rfl, rfl⟩
    intro _ b hb _
    rw [List.mem_singleton.1 hb]
    rfl
  obtain ⟨w', b, hreach, hbatches, hdone, hdeferred⟩ := hrun
  have hb : b ∈ w'.store.batches := hbatches ▸ List.mem_singleton_self b
  obtain ⟨hprocessed, -, hcount, -⟩ := batch_cursor_exact hreach (.refl w') hb
  exact ⟨w', b, hreach, hbatches, hdone, hprocessed, hdeferred, by rw [hcount, hdeferred]; rfl⟩

/-- Process 0 reads the batch before process 1 claims it, saves its first page and queues it again.
Then process 0 claims the batch and saves the same page once more: twenty observations count as
forty. -/
theorem page_counted_twice :
    ∃ w b, Run.Reachable (World.step (batchAct Sample.environment Sample.analyzer (sampleAudit 20))) batchStart w ∧
      w.store.batches = [b] ∧ b.processed = 40 ∧
      Paging.countUpTo Observation.id b.cursor ((sampleAudit 20).inScope b) = 20 := by
  have hrun : Run.run (World.step (batchAct Sample.environment Sample.analyzer (sampleAudit 20))) batchStart
      [(0, .request "run" ⟨"OWNER", none, none⟩ "manual"), (0, .advance 0), (0, .advance 0),
        (0, .processQueue 1), (0, .advance 1), (0, .latest none), (0, .advance 1),
        (1, .processQueue 1), (1, .advance 1), (1, .latest none), (1, .advance 1), (1, .advance 1),
        (1, .advance 1), (1, .advance 1), (1, .advance 2), (1, .enqueue .badRequest), (1, .advance 3),
        (0, .advance 4), (0, .advance 4), (0, .advance 4), (0, .advance 5), (0, .enqueue .badRequest),
        (0, .advance 6)] = some _ := rfl
  exact ⟨_, _, Run.reachable_of_run hrun, rfl, rfl, by decide +kernel⟩

end Sample

end AmoAnalytics.CrmControl
