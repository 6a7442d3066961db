import AmoAnalytics.Lib.Run
import AmoAnalytics.Lib.Actors

/-!
# The CRM control worker

`CrmControlScheduler` and `installCrmControlWorkerShutdown`. Interval callbacks start service calls; a busy flag keeps
the audit, the capture and the analysis apart from themselves, and `active` holds what `drain` waits for before the
application is closed. The end of a call and the `finally` blocks of its callback are one step: no timer and no signal
comes between their microtasks.
-/

namespace AmoAnalytics.CrmControl.Scheduler

open Run Actors

inductive Tick
  | enqueueAnalysis
  | check
  | capture
  | analyze
  deriving DecidableEq

/-- A callback awaits `schedule` of `check`, or the call that does the work, or has returned. -/
inductive TaskPhase
  | scheduling
  | working
  | returned
  deriving DecidableEq

structure Task where
  tick : Tick
  phase : TaskPhase
  deriving DecidableEq

/-- The process serves, awaits `drained`, awaits `application.close()`, or has called `exit`. -/
inductive Shutdown
  | serving
  | draining
  | closing
  | exited (code : ℕ)
  deriving DecidableEq

/-- The scheduler and where the shutdown stands. `busy` holds `checksBusy`, `evidenceBusy` and `analysisBusy`; a promise
is known by the number of its callback. -/
structure CrmWorker where
  tasks : List Task := []
  busy : Tick → Bool := fun _ => false
  stopping : Bool := false
  active : List ℕ := []
  draining : Option (List ℕ) := none
  shutdown : Shutdown := .serving

inductive WorkerAction
  | tick (tick : Tick)
  | ends (i : ℕ) (ok : Bool)
  | signal
  | drained
  | closed (ok : Bool)

namespace CrmWorker

def enabledWorker (role : Option String) (s : CrmWorker) : Bool :=
  !s.stopping && ["all", "crm-control"].contains ((role.filter (· ≠ "")).getD "all")

/-- `track` up to its first `await`; `enqueueAnalysis` sets no flag. -/
def track (s : CrmWorker) (tick : Tick) : CrmWorker :=
  { s with
    tasks := s.tasks ++ [⟨tick, if tick = .check then .scheduling else .working⟩]
    busy := Function.update s.busy tick (tick ≠ .enqueueAnalysis)
    active := s.active ++ [s.tasks.length] }

/-- `track` behind its last `await`, whether the action failed or not. -/
def settle (s : CrmWorker) (i : ℕ) (tick : Tick) : CrmWorker :=
  { s with
    tasks := s.tasks.set i ⟨tick, .returned⟩
    busy := Function.update s.busy tick false
    active := s.active.filter (· ≠ i) }

def drain (s : CrmWorker) : CrmWorker :=
  { s with
    stopping := true
    draining := some (s.draining.getD s.active) }

def step (role : Option String) (s : CrmWorker) : WorkerAction → Option CrmWorker
  | .tick tick => if s.enabledWorker role && !s.busy tick then some (s.track tick) else some s
  | .ends i ok =>
    match s.tasks[i]? with
    | some ⟨tick, .scheduling⟩ =>
      if ok && !s.stopping then some { s with tasks := s.tasks.set i ⟨tick, .working⟩ } else some (s.settle i tick)
    | some ⟨tick, .working⟩ => some (s.settle i tick)
    | _ => none
  | .signal => if s.shutdown = .serving then some { s.drain with shutdown := .draining } else some s
  | .drained =>
    if s.shutdown = .draining ∧ (s.draining.getD []).all fun i => s.tasks[i]?.all (·.phase = .returned)
    then some { s with shutdown := .closing } else none
  | .closed ok => if s.shutdown = .closing then some { s with shutdown := .exited (if ok then 0 else 1) } else none

/-! ## One step -/

variable {role : Option String} {s t : CrmWorker} {a : WorkerAction} {i j : ℕ} {tick other : Tick}

/-- The callback has not returned. -/
def Running (s : CrmWorker) (i : ℕ) (tick : Tick) : Prop :=
  ∃ phase, s.tasks[i]? = some ⟨tick, phase⟩ ∧ phase ≠ .returned

inductive WorkerEffect (s : CrmWorker) : CrmWorker → Prop
  | idle : WorkerEffect s s
  | began (tick : Tick) (hserving : s.stopping = false) (hfree : s.busy tick = false) : WorkerEffect s (s.track tick)
  | works (i : ℕ) (tick : Tick) (hserving : s.stopping = false) (hrunning : s.Running i tick) :
      WorkerEffect s { s with tasks := s.tasks.set i ⟨tick, .working⟩ }
  | ended (i : ℕ) (tick : Tick) (hrunning : s.Running i tick) : WorkerEffect s (s.settle i tick)
  | signalled (hserving : s.shutdown = .serving) : WorkerEffect s { s.drain with shutdown := .draining }
  | drained (hdraining : s.shutdown = .draining) (hreturned : ∀ i ∈ s.draining.getD [], ∀ tick, ¬ s.Running i tick) :
      WorkerEffect s { s with shutdown := .closing }
  | closed (code : ℕ) (hclosing : s.shutdown = .closing) : WorkerEffect s { s with shutdown := .exited code }

theorem step_effect (h : step role s a = some t) : WorkerEffect s t := by
  cases a with
  | tick tick =>
    simp only [step] at h
    split_ifs at h with hfree <;> obtain rfl := Option.some.inj h
    · simp only [enabledWorker, Bool.and_eq_true, Bool.not_eq_true'] at hfree
      exact .began tick hfree.1.1 hfree.2
    · exact .idle
  | ends i ok =>
    simp only [step] at h
    split at h
    next tick htask =>
      have hrunning : s.Running i tick := ⟨_, htask, TaskPhase.noConfusion⟩
      split_ifs at h with hok <;> obtain rfl := Option.some.inj h
      · exact .works i tick (by simpa using (Bool.and_eq_true_iff.1 hok).2) hrunning
      · exact .ended i tick hrunning
    next tick htask =>
      obtain rfl := Option.some.inj h
      exact .ended i tick ⟨_, htask, TaskPhase.noConfusion⟩
    next => cases h
  | signal =>
    simp only [step] at h
    split_ifs at h with hserving <;> obtain rfl := Option.some.inj h
    · exact .signalled hserving
    · exact .idle
  | drained =>
    simp only [step] at h
    split_ifs at h with hdrained
    obtain rfl := Option.some.inj h
    refine .drained hdrained.1 fun i hi tick hrunning => ?_
    obtain ⟨phase, htask, hphase⟩ := hrunning
    have hall := List.all_eq_true.1 hdrained.2 i hi
    rw [htask] at hall
    exact hphase (of_decide_eq_true hall)
  | closed ok =>
    obtain ⟨hclosing, h⟩ := Option.ite_none_right_eq_some.1 h
    obtain rfl := Option.some.inj h
    exact .closed _ hclosing

/-- Who runs after another callback went on ran before. -/
theorem running_set {phase : TaskPhase} (hrunning : s.Running i tick)
    (htasks : t.tasks = s.tasks.set i ⟨tick, phase⟩) (h : t.Running j other) :
    s.Running j other ∧ (j = i → other = tick ∧ phase ≠ .returned) := by
  obtain ⟨now, htask, hnow⟩ := h
  rw [htasks] at htask
  rcases getElem?_set_cases htask with ⟨rfl, heq⟩ | ⟨hne, hold⟩
  · cases heq
    exact ⟨hrunning, fun _ => ⟨rfl, hnow⟩⟩
  · exact ⟨⟨now, hold, hnow⟩, fun heq => absurd heq hne⟩

theorem running_track (h : (s.track tick).Running j other) :
    s.Running j other ∨ j = s.tasks.length ∧ other = tick := by
  obtain ⟨phase, htask, hphase⟩ := h
  rcases getElem?_append_cases htask with hold | ⟨hle, hmem⟩
  · exact Or.inl ⟨phase, hold, hphase⟩
  · have hlt : j < (s.tasks ++ [_]).length := (List.getElem?_eq_some_iff.1 htask).1
    rw [List.length_append, List.length_singleton] at hlt
    cases List.mem_singleton.1 hmem
    exact Or.inr ⟨by omega, rfl⟩

/-! ## Every run -/

/-- What `drain` awaits holds every callback that runs; when it has settled none does. -/
inductive Lifecycle (s : CrmWorker) : Prop
  | serving (hstopping : s.stopping = false) (hshutdown : s.shutdown = .serving) (hdraining : s.draining = none)
  | draining (hstopping : s.stopping = true) (hshutdown : s.shutdown = .draining)
      (hawaited : ∀ i tick, s.Running i tick → i ∈ s.draining.getD [])
  | closed (hstopping : s.stopping = true) (hshutdown : s.shutdown ≠ .serving ∧ s.shutdown ≠ .draining)
      (hnone : ∀ i tick, ¬ s.Running i tick)

structure WorkerInv (s : CrmWorker) : Prop where
  busy : ∀ i tick, s.Running i tick → tick ≠ .enqueueAnalysis → s.busy tick = true
  alone : ∀ i j tick, s.Running i tick → s.Running j tick → tick ≠ .enqueueAnalysis → i = j
  active : ∀ i tick, s.Running i tick → i ∈ s.active
  lifecycle : s.Lifecycle

theorem not_running_start : ¬ Running {} i tick := by
  rintro ⟨phase, htask, -⟩
  cases htask

theorem workerInv_start : WorkerInv {} where
  busy := fun _ _ h => absurd h not_running_start
  alone := fun _ _ _ h => absurd h not_running_start
  active := fun _ _ h => absurd h not_running_start
  lifecycle := .serving rfl rfl rfl

/-- The life goes on as it does when no further callback runs. -/
theorem Lifecycle.of_running (h : s.Lifecycle) (hruns : ∀ i tick, t.Running i tick → s.Running i tick)
    (hstopping : t.stopping = s.stopping) (hshutdown : t.shutdown = s.shutdown) (hdraining : t.draining = s.draining) :
    t.Lifecycle := by
  cases h with
  | serving hstop hshut hdrain => exact .serving (hstopping.trans hstop) (hshutdown.trans hshut) (hdraining.trans hdrain)
  | draining hstop hshut hawaited =>
    exact .draining (hstopping.trans hstop) (hshutdown.trans hshut) fun i tick hi =>
      hdraining ▸ hawaited i tick (hruns i tick hi)
  | closed hstop hshut hnone =>
    exact .closed (hstopping.trans hstop) (by rwa [hshutdown]) fun i tick hi => hnone i tick (hruns i tick hi)

theorem WorkerInv.step (h : WorkerInv s) (heffect : WorkerEffect s t) : WorkerInv t := by
  cases heffect with
  | idle => exact h
  | began tick hserving hfree =>
    have hfirst {j : ℕ} {other : Tick} (hj : s.Running j other) (hkind : other ≠ .enqueueAnalysis) : other ≠ tick := by
      rintro rfl
      exact Bool.false_ne_true (hfree.symm.trans (h.busy j other hj hkind))
    refine ⟨fun j other hj hkind => ?_, fun j k other hj hk hkind => ?_, fun j other hj => ?_, ?_⟩
    · rcases running_track hj with hj | ⟨-, rfl⟩
      · exact (Function.update_of_ne (hfirst hj hkind) _ _).trans (h.busy j other hj hkind)
      · exact (Function.update_self other _ _).trans (decide_eq_true hkind)
    · rcases running_track hj with hj | ⟨rfl, rfl⟩ <;> rcases running_track hk with hk | ⟨rfl, htick⟩
      · exact h.alone j k other hj hk hkind
      · exact absurd htick (hfirst hj hkind)
      · exact absurd rfl (hfirst hk hkind)
      · rfl
    · rcases running_track hj with hj | ⟨rfl, -⟩
      · exact List.mem_append_left _ (h.active j other hj)
      · exact List.mem_append_right _ (List.mem_singleton_self _)
    · cases h.lifecycle with
      | serving hstop hshut hdrain => exact .serving hstop hshut hdrain
      | draining hstop => cases hserving.symm.trans hstop
      | closed hstop => cases hserving.symm.trans hstop
  | works i tick hserving hrunning =>
    have hruns (j : ℕ) (other : Tick) (hj : Running { s with tasks := s.tasks.set i ⟨tick, .working⟩ } j other) :
        s.Running j other := (running_set hrunning rfl hj).1
    exact ⟨fun j other hj => h.busy j other (hruns j other hj),
      fun j k other hj hk => h.alone j k other (hruns j other hj) (hruns k other hk),
      fun j other hj => h.active j other (hruns j other hj), h.lifecycle.of_running hruns rfl rfl rfl⟩
  | ended i tick hrunning =>
    have hruns (j : ℕ) (other : Tick) (hj : (s.settle i tick).Running j other) : s.Running j other ∧ j ≠ i :=
      (running_set hrunning rfl hj).imp_right fun hself heq => (hself heq).2 rfl
    refine ⟨fun j other hj hkind => ?_, fun j k other hj hk => h.alone j k other (hruns j other hj).1 (hruns k other hk).1,
      fun j other hj => ?_, h.lifecycle.of_running (fun j other hj => (hruns j other hj).1) rfl rfl rfl⟩
    · obtain ⟨hold, hne⟩ := hruns j other hj
      refine (Function.update_of_ne ?_ _ _).trans (h.busy j other hold hkind)
      rintro rfl
      exact hne (h.alone j i other hold hrunning hkind)
    · obtain ⟨hold, hne⟩ := hruns j other hj
      exact List.mem_filter.2 ⟨h.active j other hold, decide_eq_true hne⟩
  | signalled hserving =>
    refine ⟨h.busy, h.alone, h.active, .draining rfl rfl fun i tick hi => ?_⟩
    change i ∈ s.draining.getD s.active
    cases h.lifecycle with
    | serving _ _ hdrain =>
      rw [hdrain]
      exact h.active i tick hi
    | draining hstop hshut => cases hserving.symm.trans hshut
    | closed hstop hshut => exact absurd hserving hshut.1
  | drained hdraining hreturned =>
    refine ⟨h.busy, h.alone, h.active, ?_⟩
    cases h.lifecycle with
    | serving hstop hshut => cases hdraining.symm.trans hshut
    | draining hstop hshut hawaited =>
      exact .closed hstop ⟨Shutdown.noConfusion, Shutdown.noConfusion⟩ fun i tick hi =>
        hreturned i (hawaited i tick hi) tick hi
    | closed hstop hshut => exact absurd hdraining hshut.2
  | closed code hclosing =>
    refine ⟨h.busy, h.alone, h.active, ?_⟩
    cases h.lifecycle with
    | serving hstop hshut => cases hclosing.symm.trans hshut
    | draining hstop hshut => cases hclosing.symm.trans hshut
    | closed hstop hshut hnone => exact .closed hstop ⟨Shutdown.noConfusion, Shutdown.noConfusion⟩ hnone

theorem workerInv_of_reachable (h : Reachable (step role) {} s) : WorkerInv s :=
  h.invariant workerInv_start fun _ _ _ hinv _ hstep => hinv.step (step_effect hstep)

/-- **Exclusive callbacks.** Whatever comes between them, a callback of `check`, `capture` or `analyze` never works
beside another of its kind. -/
theorem ticks_exclusive (role : Option String) (h : Reachable (step role) {} s) (hi : s.Running i tick)
    (hj : s.Running j tick) (hkind : tick ≠ .enqueueAnalysis) : i = j :=
  (workerInv_of_reachable h).alone i j tick hi hj hkind

theorem ticks_exclusive_sample : ∃ s : CrmWorker, s.Running 1 .capture ∧ ∀ i, s.Running i .capture → i = 1 := by
  have h : Reachable (step none) {} _ :=
    reachable_of_run (rfl : run (step none) {} [.tick .capture, .ends 0 true, .tick .capture, .tick .check] = some _)
  refine ⟨_, ?first, fun i hi => ticks_exclusive none h hi ?first (by decide)⟩
  exact ⟨.working, rfl, by decide⟩

/-! ## Shutdown -/

/-- Once the worker stops nothing begins: what runs later already awaited the same call. -/
def Drains (s t : CrmWorker) : Prop :=
  s.stopping = true → t.stopping = true ∧ ∀ (i : ℕ) (task : Task), t.tasks[i]? = some task →
    task.phase ≠ .returned → s.tasks[i]? = some task

theorem drains_of_effect (heffect : WorkerEffect s t) : Drains s t := by
  intro hstop
  cases heffect with
  | began tick hserving => cases hserving.symm.trans hstop
  | works i tick hserving => cases hserving.symm.trans hstop
  | ended i tick hrunning =>
    refine ⟨hstop, fun j task htask hphase => ?_⟩
    rcases getElem?_set_cases htask with ⟨-, rfl⟩ | ⟨-, hold⟩
    · exact absurd rfl hphase
    · exact hold
  | signalled => exact ⟨rfl, fun _ _ htask _ => htask⟩
  | _ => exact ⟨hstop, fun _ _ htask _ => htask⟩

/-- **Safe shutdown.** After a signal no service call begins. Once the calls that were under way have ended the
application can be closed, and from when it is being closed no call is under way. -/
theorem shutdown_safe (role : Option String) (h : Reachable (step role) {} s) (hstop : s.stopping = true) :
    (∀ t, Reachable (step role) s t → ∀ (i : ℕ) (task : Task), t.tasks[i]? = some task → task.phase ≠ .returned →
      s.tasks[i]? = some task) ∧
      (s.shutdown = .draining → (∀ task ∈ s.tasks, task.phase = .returned) →
        ∃ t, step role s .drained = some t ∧ t.shutdown = .closing) ∧
      (s.shutdown ≠ .draining → ∀ task ∈ s.tasks, task.phase = .returned) := by
  refine ⟨fun t ht => ?_, fun hdraining hreturned => ?_, fun hclosed task hmem => ?_⟩
  · have hrun : Drains s t := by
      refine ht.stable (I := fun _ => True) trivial (fun s _ hs => ⟨hs, fun _ _ htask _ => htask⟩)
        (fun s t u hst htu hs => ?_) fun s a t _ _ hstep => ⟨trivial, drains_of_effect (step_effect hstep)⟩
      obtain ⟨htstop, htruns⟩ := hst hs
      obtain ⟨hustop, huruns⟩ := htu htstop
      exact ⟨hustop, fun i task htask hphase => htruns i task (huruns i task htask hphase) hphase⟩
    exact (hrun hstop).2
  · refine ⟨_, if_pos ⟨hdraining, List.all_eq_true.2 fun i _ => ?_⟩, rfl⟩
    exact (Option.all_eq_true _ _).2 fun task htask => decide_eq_true (hreturned task (List.mem_of_getElem? htask))
  · cases (workerInv_of_reachable h).lifecycle with
    | serving hserving => cases hserving.symm.trans hstop
    | draining _ hshut => exact absurd hshut hclosed
    | closed _ _ hnone =>
      obtain ⟨i, hi⟩ := List.mem_iff_getElem?.1 hmem
      by_contra hphase
      exact hnone i task.tick ⟨task.phase, hi, hphase⟩

theorem shutdown_safe_sample : ∃ s t : CrmWorker, s.draining = some [0] ∧ step none s .drained = some t ∧
    t.shutdown = .closing := by
  have h : Reachable (step none) {} _ :=
    reachable_of_run (rfl : run (step none) {} [.tick .check, .signal, .tick .capture, .ends 0 true] = some _)
  obtain ⟨t, ht⟩ := (shutdown_safe none h rfl).2.1 rfl (List.forall_mem_singleton.2 rfl)
  exact ⟨_, t, rfl, ht⟩

end CrmWorker

end AmoAnalytics.CrmControl.Scheduler
