import AmoAnalytics.CrmControl.AnalysisEffect
import AmoAnalytics.Lib.Paging

/-!
# The attempt that made a job ready

A reader of a finished job takes its last attempt that is ready (`readyAttempt`) and works the verdict out again. In
every store that is reached that attempt exists, it is the one whose verdict the job shows, and its response was
answered to the request of the job.
-/

namespace AmoAnalytics.CrmControl

open Transaction

variable {env : Env} {analyzer : Analyzer} {db db' : AnalysisDb}

/-- The attempt that `analysisProof` includes. -/
def AnalysisDb.readyAttempt (db : AnalysisDb) (jobId : String) : Option Attempt :=
  ((db.attempts.filter fun a => a.jobId = jobId && a.status = .ready).insertionSort fun a b =>
    b.attemptNo ≤ a.attemptNo).head?

/-! ## The invariant -/

/-- What is known of an answer to a job. -/
abbrev Answer := AnalysisJob → Outcome → Option String → Prop

/-- The attempt gave the verdict of the job; `Q` is known of every answer. -/
structure Attests (analyzer : Analyzer) (Q : Answer) (j : AnalysisJob) (a : Attempt) : Prop where
  job : a.jobId = j.id
  attemptNo : a.attemptNo = j.attemptCount
  status : a.status = .ready
  answer : ∃ job outcome rule, a.rawResponse = some outcome ∧ job.request = j.request ∧ Q job outcome rule ∧
    (verdict analyzer job outcome rule).status = .ready ∧
    j.assessmentStatus = some (verdict analyzer job outcome rule).assessment.status

/-- Every job that is ready has its attempt. -/
def Attested (analyzer : Analyzer) (Q : Answer) (db : AnalysisDb) : Prop :=
  ∀ j ∈ db.jobs, j.status = .ready → ∃ a ∈ db.attempts, Attests analyzer Q j a

/-- The job that a process analyses is in the store, with the same request. -/
def AnalysisThread.Reads (db : AnalysisDb) (thread : AnalysisThread) : Prop :=
  ∀ options job, thread = .analysing options job → ∃ k ∈ db.jobs, k.id = job.id ∧ k.request = job.request

/-- The jobs stay in the store. -/
def KeepsRows (db db' : AnalysisDb) : Prop := ∀ j ∈ db.jobs, ∃ j' ∈ db'.jobs, SameJob j j'

/-- The condition on a step: what is known of an answer holds of the one that is stored. -/
def Answers (Q : Answer) (_ : AnalysisDb) (thread : AnalysisThread) (a : AnalysisAct) : Prop :=
  ∀ options job now outcome rule, thread = .analysing options job → a = .finish now outcome rule →
    Q job (analysed options job outcome) rule

variable {Q : Answer} {thread thread' : AnalysisThread} {a : AnalysisAct}

theorem AnalysisThread.Reads.mono (h : thread.Reads db) (hrows : KeepsRows db db') : thread.Reads db' := by
  intro options job hthread
  obtain ⟨k, hk, hid, hrequest⟩ := h options job hthread
  obtain ⟨k', hk', hsame⟩ := hrows k hk
  exact ⟨k', hk', hsame.id.trans hid, hsame.request.trans hrequest⟩

/-! ## Steps -/

theorem claim_mem {now : ℤ} {candidate job : AnalysisJob} (h : claim env now candidate db = .ok (db', some job)) :
    job ∈ db'.jobs := by
  unfold CrmControl.claim at h
  split at h
  · dsimp only at h
    split at h
    · exact nomatch h
    · obtain ⟨rfl, hfind⟩ := Prod.mk.inj (Except.ok.inj h)
      exact List.mem_of_find?_eq_some hfind
  · exact nomatch (Prod.mk.inj (Except.ok.inj h)).2

theorem advance_reads (h : thread.advance env db = (db', thread')) (hthread : thread.Reads db) :
    thread'.Reads db' := by
  rintro options job rfl
  cases thread with
  | claiming now options' candidate =>
    simp only [AnalysisThread.advance] at h
    split at h
    · rename_i db₁ claimed hclaim
      obtain ⟨rfl, heq⟩ := Prod.mk.inj h
      obtain ⟨-, rfl⟩ := AnalysisThread.analysing.inj heq
      exact ⟨claimed, claim_mem hclaim, rfl, rfl⟩
    · cases (Prod.mk.inj h).2
    · cases (Prod.mk.inj h).2
  | idle => cases (Prod.mk.inj h).2
  | analysing options' job' =>
    obtain ⟨rfl, heq⟩ := Prod.mk.inj h
    exact hthread options job heq
  | _ =>
    simp only [AnalysisThread.advance] at h
    repeat' (first | cases (Prod.mk.inj h).2 | split at h)

theorem analysisAct_reads (h : analysisAct env analyzer db thread a = some (db', thread'))
    (hthread : thread.Reads db) : thread'.Reads db' := by
  unfold CrmControl.analysisAct at h
  split at h
  case h_3 => split at h <;> cases h <;> exact fun _ _ => nofun
  case h_7 => exact advance_reads (Option.some.inj h) hthread
  all_goals cases h <;> exact fun _ _ => nofun

theorem analysisAct_keepsRows (hthread : thread.Retries)
    (h : analysisAct env analyzer db thread a = some (db', thread')) : KeepsRows db db' := by
  rcases analysisAct_enqueues hthread h with heffect | ⟨r, createdAt, -, rfl⟩
  · exact heffect.jobs.2
  · exact fun j hj => ⟨j, mem_enqueue.2 (Or.inl hj), .refl j⟩

/-- The attempts of a job that stays ready are still there. -/
theorem Attested.old (h : Attested analyzer Q db) (hattempts : ∀ a ∈ db.attempts, a ∈ db'.attempts) {j : AnalysisJob}
    (hj : j ∈ db.jobs) (hready : j.status = .ready) : ∃ a ∈ db'.attempts, Attests analyzer Q j a := by
  obtain ⟨a, ha, hattests⟩ := h j hj hready
  exact ⟨a, hattempts a ha, hattests⟩

/-- A process writes its verdict and the attempt. -/
theorem Attested.finish (h : Attested analyzer Q db) (hids : (db.jobs.map (·.id)).Nodup) {job : AnalysisJob}
    {now : ℤ} {outcome : Outcome} {rule : Option String} (hQ : Q job outcome rule)
    (hreads : ∃ k ∈ db.jobs, k.id = job.id ∧ k.request = job.request) :
    Attested analyzer Q (commit db (finish env now job outcome (verdict analyzer job outcome rule) db)) := by
  refine commit_induction h fun db' hdb => ?_
  unfold CrmControl.finish at hdb
  split_ifs at hdb with hany
  · obtain rfl := insertAttempt_ok hdb
    intro j' hj' hready
    obtain ⟨j, hj, rfl⟩ := Table.mem_updateWhere.1 hj'
    split_ifs at hready ⊢ with hholds
    · obtain ⟨k, hk, hid, hrequest⟩ := hreads
      simp only [holdsJob, Bool.and_eq_true, decide_eq_true_eq] at hholds
      obtain rfl : k = j := List.inj_on_of_nodup_map hids hk hj (hid.trans hholds.1.1.1.1.1.symm)
      -- a verdict that is retried queues the job again
      have hverdict : (verdict analyzer job outcome rule).status = .ready := by
        simp only [AnalysisJob.finish] at hready
        split_ifs at hready
        exact hready
      refine ⟨_, List.mem_append_right _ List.mem_cons_self, hid.symm, hholds.1.2.symm, hverdict, ?_⟩
      exact ⟨job, outcome, rule, rfl, hrequest.symm, hQ, hverdict, rfl⟩
    · exact h.old (fun a ha => List.mem_append_left _ ha) hj hready
  · exact Except.ok.inj hdb ▸ h

/-- **Step lemma.** -/
theorem Attested.step (h : Attested analyzer Q db) (hids : (db.jobs.map (·.id)).Nodup) (hthread : thread.Retries)
    (hreads : thread.Reads db) (hanswers : Answers Q db thread a)
    (hact : analysisAct env analyzer db thread a = some (db', thread')) : Attested analyzer Q db' := by
  rcases analysisAct_effect hthread hact with
    heffect | ⟨r, createdAt, -, rfl⟩ | ⟨options, job, now, outcome, rule, rfl, rfl, rfl⟩
  · intro j hj hready
    exact h.old (fun a ha => heffect.attempts.subset ha) (heffect.ready hj hready) hready
  · intro j hj hready
    rcases mem_enqueue.1 hj with hj | ⟨rfl, -⟩
    · exact h.old (fun a ha => by unfold AnalysisDb.enqueue; split_ifs <;> exact ha) hj hready
    · exact nomatch hready
  · exact h.finish hids (hanswers options job now outcome rule rfl rfl) (hreads options job rfl)

/-- **Run lemma.** In a run where `Q` is known of every answer, every ready job has its attempt. -/
theorem attested_of_reachable {w : World AnalysisDb AnalysisThread}
    (h : Run.ReachableVia (World.step (analysisAct env analyzer))
      (fun w a => Answers Q w.store (w.locals a.1) a.2) analysisStart w) : Attested analyzer Q w.store := by
  refine (World.guarded_invariant (g := Answers Q)
    (I := fun db => AnalysisInv env db ∧ Attested analyzer Q db)
    (L := fun db thread => Knows env db thread ∧ thread.Retries ∧ thread.Reads db)
    (R := fun db db' => Moves env db db' ∧ KeepsRows db db') h
    ⟨⟨analysisInv_empty, fun j hj => nomatch (show j ∈ [] from hj)⟩,
      fun i => ⟨knows_of_held rfl, fun _ _ => nofun, fun _ _ => nofun⟩⟩ ?_ ?_).1.2
  · rintro db thread a db' thread' ⟨hinv, hattested⟩ ⟨hknows, hretries, hreads⟩ hanswers hact
    obtain ⟨hinv', hknows', hmoves⟩ := analysisAct_spec hinv hknows hact
    exact ⟨⟨hinv', hattested.step hinv.ids hretries hreads hanswers hact⟩,
      ⟨hknows', analysisAct_retries hretries hact, analysisAct_reads hact hreads⟩, hmoves,
      analysisAct_keepsRows hretries hact⟩
  · rintro db db' thread - ⟨hknows, hretries, hreads⟩ ⟨hmoves, hrows⟩
    exact ⟨fun job hjob => (hknows job hjob).moves hmoves, hretries, hreads.mono hrows⟩

/-! ## What a reader finds -/

instance : Std.Total fun a b : Attempt => b.attemptNo ≤ a.attemptNo where
  total a b := le_total b.attemptNo a.attemptNo

instance : IsTrans Attempt fun a b => b.attemptNo ≤ a.attemptNo where
  trans _ _ _ hab hbc := hbc.trans hab

/-- The attempt that gave the verdict is the last one, so it is the one that a reader takes. -/
theorem readyAttempt_of_attests (hinv : AnalysisInv env db) {j : AnalysisJob} (hj : j ∈ db.jobs) {a : Attempt}
    (ha : a ∈ db.attempts) (h : Attests analyzer Q j a) : db.readyAttempt j.id = some a := by
  refine Paging.head?_insertionSort (List.mem_filter.2 ⟨ha, by simp [h.job, h.status]⟩) fun b hb => ?_
  obtain ⟨hb, hkey⟩ := List.mem_filter.1 hb
  rw [Bool.and_eq_true, decide_eq_true_eq] at hkey
  have hlast := ((hinv.ok j hj).recorded b hb hkey.1).2
  rw [← h.attemptNo] at hlast
  rcases hlast.eq_or_lt with heq | hlt
  · refine Or.inl (List.inj_on_of_nodup_map hinv.attempt_nos hb ha ?_)
    rw [hkey.1, h.job, heq]
  · exact Or.inr hlt.not_ge

end AmoAnalytics.CrmControl
