import AmoAnalytics.Lib.Actors
import AmoAnalytics.Lib.Endless

/-!
# Slots of report computations

`withFreshComputeSlot` of `reports.service.ts`. A caller that finds the slots taken waits for its turn; the end of a
computation gives up its slot and wakes the first that waits, which goes on in a later microtask and takes a slot
without looking again. Whoever arrives in between finds the slot free, so the limit holds as long as nobody takes a
slot that is promised.
-/

namespace AmoAnalytics.Reports

open Run

/-! ## Callers -/

inductive SlotPhase
  | waiting
  | woken
  | running
  | done (succeeded : Bool)
  deriving DecidableEq

/-- The callers in the order in which they came, `activeFreshComputes` and `freshComputeQueue`. -/
structure ComputeSlots where
  callers : List SlotPhase := []
  active : ℕ := 0
  queue : List ℕ := []

/-- A new caller, a woken one that goes on, a computation that ends, or nothing. -/
inductive ComputeAction
  | arrive
  | resume (i : ℕ)
  | settle (i : ℕ) (succeeded : Bool)
  | idle
  deriving DecidableEq

namespace ComputeSlots

/-- The call up to its first `await`. -/
def arrive (limit : ℕ) (s : ComputeSlots) : ComputeSlots :=
  if limit ≤ s.active then { s with callers := s.callers ++ [.waiting], queue := s.queue ++ [s.callers.length] }
  else { s with callers := s.callers ++ [.running], active := s.active + 1 }

/-- `this.activeFreshComputes += 1` after the wait. -/
def resume (i : ℕ) (s : ComputeSlots) : ComputeSlots :=
  { s with callers := s.callers.set i .running, active := s.active + 1 }

/-- The `finally` block. -/
def settle (i : ℕ) (succeeded : Bool) (s : ComputeSlots) : ComputeSlots :=
  let callers := s.callers.set i (.done succeeded)
  match s.queue with
  | [] => { s with callers, active := s.active - 1 }
  | next :: queue => { callers := callers.set next .woken, active := s.active - 1, queue }

def step (limit : ℕ) (s : ComputeSlots) : ComputeAction → Option ComputeSlots
  | .arrive => some (s.arrive limit)
  | .resume i => if s.callers[i]? = some .woken then some (s.resume i) else none
  | .settle i succeeded => if s.callers[i]? = some .running then some (s.settle i succeeded) else none
  | .idle => some s

/-- The callbacks that are active. -/
def running (s : ComputeSlots) : ℕ := s.callers.countP (· = .running)

/-- The callers that were woken and have not gone on. -/
def woken (s : ComputeSlots) : ℕ := s.callers.countP (· = .woken)

/-! ## One step -/

/-- What a step does to the callers and the queue. -/
inductive SlotEffect (limit : ℕ) (s : ComputeSlots) : ComputeAction → ComputeSlots → Prop
  | queued (hfull : limit ≤ s.active) :
      SlotEffect limit s .arrive
        { s with callers := s.callers ++ [.waiting], queue := s.queue ++ [s.callers.length] }
  | taken (hfree : s.active < limit) :
      SlotEffect limit s .arrive { s with callers := s.callers ++ [.running], active := s.active + 1 }
  | resumed (i : ℕ) (hwoken : s.callers[i]? = some .woken) :
      SlotEffect limit s (.resume i) { s with callers := s.callers.set i .running, active := s.active + 1 }
  | released (i : ℕ) (succeeded : Bool) (hrunning : s.callers[i]? = some .running) (hqueue : s.queue = []) :
      SlotEffect limit s (.settle i succeeded)
        { s with callers := s.callers.set i (.done succeeded), active := s.active - 1 }
  | handed (i : ℕ) (succeeded : Bool) (next : ℕ) (queue : List ℕ) (hrunning : s.callers[i]? = some .running)
      (hqueue : s.queue = next :: queue) :
      SlotEffect limit s (.settle i succeeded)
        { callers := (s.callers.set i (.done succeeded)).set next .woken, active := s.active - 1, queue }
  | idle : SlotEffect limit s .idle s

variable {limit : ℕ} {s t : ComputeSlots} {action : ComputeAction} {i j : ℕ} {phase : SlotPhase}

theorem step_effect (h : step limit s action = some t) : SlotEffect limit s action t := by
  cases action with
  | arrive =>
    obtain rfl := Option.some.inj h
    unfold arrive
    split_ifs with hfull
    · exact .queued hfull
    · exact .taken (Nat.not_le.1 hfull)
  | resume i =>
    simp only [step] at h
    split_ifs at h with hwoken
    obtain rfl := Option.some.inj h
    exact .resumed i hwoken
  | settle i succeeded =>
    simp only [step] at h
    split_ifs at h with hrunning
    obtain rfl := Option.some.inj h
    cases hqueue : s.queue with
    | nil =>
      have heq : s.settle i succeeded =
          { s with callers := s.callers.set i (.done succeeded), active := s.active - 1 } := by
        simp [settle, hqueue]
      exact heq ▸ .released i succeeded hrunning hqueue
    | cons next queue =>
      have heq : s.settle i succeeded =
          { callers := (s.callers.set i (.done succeeded)).set next .woken, active := s.active - 1, queue } := by
        simp [settle, hqueue]
      exact heq ▸ .handed i succeeded next queue hrunning hqueue
  | idle =>
    obtain rfl := Option.some.inj h
    exact .idle

/-! ## Counting the callers -/

/-- Replacing a caller moves one from the count of its phase to the count of the new one. -/
theorem countP_set_add {callers : List SlotPhase} (h : callers[i]? = some phase) (next : SlotPhase)
    (p : SlotPhase → Bool) :
    (callers.set i next).countP p + (if p phase then 1 else 0) = callers.countP p + if p next then 1 else 0 := by
  obtain ⟨hlt, rfl⟩ := List.getElem?_eq_some_iff.1 h
  have hcount : 0 < callers.countP p ∨ p callers[i] = false := by
    cases hp : p callers[i] with
    | false => exact Or.inr rfl
    | true => exact Or.inl (List.countP_pos_iff.2 ⟨_, List.getElem_mem hlt, hp⟩)
  rw [List.countP_set hlt]
  split_ifs <;> simp_all

/-- The counter is the number of active callbacks, the queue holds the callers that wait, and while somebody waits the
slots are taken or promised. -/
structure Counted (limit : ℕ) (s : ComputeSlots) : Prop where
  active : s.active = s.running
  queue : ∀ j, j ∈ s.queue ↔ s.callers[j]? = some .waiting
  nodup : s.queue.Nodup
  busy : s.queue ≠ [] → limit ≤ s.active + s.woken

theorem Counted.start : Counted limit {} := ⟨rfl, fun _ => by simp, List.nodup_nil, fun h => absurd rfl h⟩

/-- The counts after a step: callbacks active, callers woken. -/
theorem Counted.counts (h : Counted limit s) (heffect : SlotEffect limit s action t) :
    t.active = t.running ∧
      (t.active + t.woken = s.active + s.woken ∨
        (action = .arrive ∧ s.active < limit ∧ t.active + t.woken = s.active + s.woken + 1) ∨
        (t.queue = [] ∧ t.active + t.woken + 1 = s.active + s.woken)) := by
  have hactive := h.active
  simp only [running, woken] at hactive ⊢
  cases heffect with
  | queued => simp [List.countP_append, hactive]
  | taken hfree => simp [List.countP_append, hactive]; omega
  | resumed i hwoken =>
    have hrun := countP_set_add hwoken .running fun phase => phase = .running
    have hwake := countP_set_add hwoken .running fun phase => phase = .woken
    simp at hrun hwake
    dsimp only
    omega
  | released i succeeded hrunning hqueue =>
    have hrun := countP_set_add hrunning (.done succeeded) fun phase => phase = .running
    have hwake := countP_set_add hrunning (.done succeeded) fun phase => phase = .woken
    simp at hrun hwake
    dsimp only
    exact ⟨by omega, Or.inr (Or.inr ⟨hqueue, by omega⟩)⟩
  | handed i succeeded next queue hrunning hqueue =>
    have hnext : s.callers[next]? = some .waiting := (h.queue next).1 (hqueue ▸ List.mem_cons_self)
    have hne : i ≠ next := by
      rintro rfl
      exact nomatch hrunning.symm.trans hnext
    have hnext' : (s.callers.set i (.done succeeded))[next]? = some .waiting := by
      rw [List.getElem?_set_ne hne, hnext]
    have hrun := countP_set_add hrunning (.done succeeded) fun phase => phase = .running
    have hwake := countP_set_add hrunning (.done succeeded) fun phase => phase = .woken
    have hrun' := countP_set_add hnext' .woken fun phase => phase = .running
    have hwake' := countP_set_add hnext' .woken fun phase => phase = .woken
    simp at hrun hwake hrun' hwake'
    dsimp only
    omega
  | idle => exact ⟨hactive, Or.inl rfl⟩

/-- The phase of a caller changes by its own actions, and from waiting to woken when it is the first of the queue. -/
theorem phase_effect (heffect : SlotEffect limit s action t) (hphase : s.callers[i]? = some phase) :
    t.callers[i]? = some phase ∨
      (phase = .woken ∧ action = .resume i ∧ t.callers[i]? = some .running) ∨
      (phase = .running ∧ ∃ succeeded, action = .settle i succeeded) ∨
      ((∃ j succeeded, action = .settle j succeeded) ∧ s.queue.head? = some i ∧ t.callers[i]? = some .woken) := by
  obtain ⟨hlt, -⟩ := List.getElem?_eq_some_iff.1 hphase
  cases heffect with
  | queued => exact Or.inl (Actors.getElem?_append_of_some hphase)
  | taken => exact Or.inl (Actors.getElem?_append_of_some hphase)
  | resumed j hwoken =>
    by_cases hj : j = i
    · subst hj
      obtain rfl := Option.some.inj (hphase.symm.trans hwoken)
      exact Or.inr (Or.inl ⟨rfl, rfl, Actors.getElem?_set_self_of_some hwoken⟩)
    · exact Or.inl ((List.getElem?_set_ne hj).trans hphase)
  | released j succeeded hrunning hqueue =>
    by_cases hj : j = i
    · subst hj
      obtain rfl := Option.some.inj (hphase.symm.trans hrunning)
      exact Or.inr (Or.inr (Or.inl ⟨rfl, succeeded, rfl⟩))
    · exact Or.inl ((List.getElem?_set_ne hj).trans hphase)
  | handed j succeeded next queue hrunning hqueue =>
    by_cases hnext : next = i
    · subst hnext
      refine Or.inr (Or.inr (Or.inr ⟨⟨j, succeeded, rfl⟩, by rw [hqueue]; rfl, ?_⟩))
      rw [List.getElem?_set_self (by rwa [List.length_set])]
    · by_cases hj : j = i
      · subst hj
        obtain rfl := Option.some.inj (hphase.symm.trans hrunning)
        exact Or.inr (Or.inr (Or.inl ⟨rfl, succeeded, rfl⟩))
      · refine Or.inl ?_
        dsimp only
        rw [List.getElem?_set_ne hnext, List.getElem?_set_ne hj, hphase]
  | idle => exact Or.inl hphase

theorem waiting_set {next : SlotPhase} (h : s.callers[i]? = some phase) (hphase : phase ≠ .waiting)
    (hnext : next ≠ .waiting) :
    s.callers[j]? = some .waiting ↔ (s.callers.set i next)[j]? = some .waiting := by
  by_cases hj : i = j
  · subst hj
    rw [Actors.getElem?_set_self_of_some h, h]
    exact ⟨fun heq => absurd (Option.some.inj heq) hphase, fun heq => absurd (Option.some.inj heq) hnext⟩
  · rw [List.getElem?_set_ne hj]

theorem Counted.step (h : Counted limit s) (heffect : SlotEffect limit s action t) : Counted limit t := by
  obtain ⟨hactive, hsum⟩ := h.counts heffect
  have hbusy (hs : s.queue ≠ []) (ht : t.queue ≠ []) : limit ≤ t.active + t.woken := by
    have hle := h.busy hs
    rcases hsum with hsum | ⟨-, -, hsum⟩ | ⟨hqueue, -⟩
    · omega
    · omega
    · exact absurd hqueue ht
  cases heffect with
  | queued hfull =>
    have hnew : s.callers.length ∉ s.queue := by
      rw [h.queue, List.getElem?_eq_none le_rfl]
      exact nofun
    refine ⟨hactive, fun j => ?_, ?_, fun _ => hfull.trans (Nat.le_add_right _ _)⟩
    · rw [List.mem_append, List.mem_singleton, h.queue j]
      constructor
      · rintro (hj | rfl)
        · exact Actors.getElem?_append_of_some hj
        · exact List.getElem?_concat_length
      · intro hj
        rcases Actors.getElem?_append_cases hj with hj | ⟨hle, -⟩
        · exact Or.inl hj
        · obtain ⟨hlt, -⟩ := List.getElem?_eq_some_iff.1 hj
          rw [List.length_append, List.length_singleton] at hlt
          exact Or.inr (by omega)
    · exact List.nodup_append.2 ⟨h.nodup, List.nodup_singleton _, fun a ha b hb hab =>
        hnew (List.mem_singleton.1 hb ▸ hab ▸ ha)⟩
  | taken hfree =>
    refine ⟨hactive, fun j => ?_, h.nodup, fun hne => hbusy hne hne⟩
    rw [h.queue j]
    refine ⟨Actors.getElem?_append_of_some, fun hj => ?_⟩
    rcases Actors.getElem?_append_cases hj with hj | ⟨-, hj⟩
    · exact hj
    · exact nomatch List.mem_singleton.1 hj
  | resumed i hwoken =>
    refine ⟨hactive, fun j => ?_, h.nodup, fun hne => hbusy hne hne⟩
    rw [h.queue j]
    exact waiting_set hwoken (by decide) (by decide)
  | released i succeeded hrunning hqueue =>
    refine ⟨hactive, fun j => ?_, h.nodup, fun hne => hbusy hne hne⟩
    rw [h.queue j]
    exact waiting_set hrunning (by decide) nofun
  | handed i succeeded next queue hrunning hqueue =>
    have hne : s.queue ≠ [] := hqueue ▸ List.cons_ne_nil _ _
    have hnodup : next ∉ queue ∧ queue.Nodup := List.nodup_cons.1 (hqueue ▸ h.nodup)
    refine ⟨hactive, fun j => ?_, hnodup.2, hbusy hne⟩
    have hbefore : s.callers[j]? = some .waiting ↔ j = next ∨ j ∈ queue := by
      rw [← h.queue j, hqueue, List.mem_cons]
    have hdone : SlotPhase.done succeeded ≠ .waiting := nofun
    have hsettled : (s.callers.set i (.done succeeded))[j]? = some .waiting ↔ s.callers[j]? = some .waiting :=
      (waiting_set hrunning (by decide) hdone).symm
    dsimp only
    by_cases hj : next = j
    · subst hj
      refine ⟨fun hmem => absurd hmem hnodup.1, fun hwaiting => ?_⟩
      rcases Actors.getElem?_set_cases hwaiting with ⟨-, hphase⟩ | ⟨hself, -⟩
      · exact nomatch hphase
      · exact absurd rfl hself
    · rw [List.getElem?_set_ne hj, hsettled, hbefore]
      exact ⟨Or.inr, fun h => h.resolve_left (Ne.symm hj)⟩
  | idle => exact h

theorem counted_of_reachable (h : Reachable (step limit) {} s) : Counted limit s :=
  h.invariant Counted.start fun _ _ _ hc _ hstep => hc.step (step_effect hstep)

/-! ## The limit -/

/-- A caller that finds a free slot finds one that is not promised to a woken caller. -/
def Roomy (limit : ℕ) (s : ComputeSlots) (action : ComputeAction) : Prop :=
  action = .arrive → s.active < limit → s.active + s.woken < limit

instance : Decidable (Roomy limit s action) := inferInstanceAs (Decidable (_ → _))

theorem promised_le (h : ReachableVia (step limit) (Roomy limit) {} s) : s.active + s.woken ≤ limit := by
  have hboth : Counted limit s ∧ s.active + s.woken ≤ limit := by
    refine h.invariant (I := fun s => Counted limit s ∧ s.active + s.woken ≤ limit)
      ⟨Counted.start, Nat.zero_le _⟩ fun s action t hinv hroomy hstep => ?_
    obtain ⟨hcounted, hle⟩ := hinv
    have heffect := step_effect hstep
    refine ⟨hcounted.step heffect, ?_⟩
    rcases (hcounted.counts heffect).2 with hsum | ⟨harrive, hfree, hsum⟩ | ⟨-, hsum⟩
    · omega
    · have hroom := hroomy harrive hfree
      omega
    · omega
  exact hboth.2

/-- All woken callers may go on before anything else happens. -/
theorem exists_resumed (s : ComputeSlots) :
    ∃ t, ReachableVia (step limit) (fun _ _ => True) s t ∧ t.running = s.running + s.woken := by
  induction hwoken : s.woken generalizing s with
  | zero => exact ⟨s, .refl s, rfl⟩
  | succ n ih =>
    have hpos : 0 < s.callers.countP (· = .woken) := by
      have hcount : s.callers.countP (· = .woken) = n + 1 := hwoken
      omega
    obtain ⟨phase, hmem, hphase⟩ := List.countP_pos_iff.1 hpos
    obtain rfl := of_decide_eq_true hphase
    obtain ⟨i, hi⟩ := List.mem_iff_getElem?.1 hmem
    have hstep : step limit s (.resume i) = some (s.resume i) := if_pos hi
    have hrun := countP_set_add hi .running fun phase => phase = .running
    have hwake := countP_set_add hi .running fun phase => phase = .woken
    simp only [running, woken] at hwoken ih ⊢
    simp at hrun hwake
    obtain ⟨t, ht, hcount⟩ := ih (s.resume i) (by simp only [resume]; omega)
    refine ⟨t, (ReachableVia.single trivial hstep).trans ht, ?_⟩
    rw [hcount]
    simp only [resume]
    omega

/-- Otherwise the limit can be exceeded right after. -/
theorem overflow (h : Reachable (step limit) {} s) (hcrowded : ¬Roomy limit s action) :
    ∃ t u, step limit s action = some t ∧ Reachable (step limit) t u ∧ limit < u.running := by
  simp only [Roomy, not_forall, Nat.not_lt, exists_prop] at hcrowded
  obtain ⟨rfl, hfree, hpromised⟩ := hcrowded
  have hstep : step limit s .arrive = some (s.arrive limit) := rfl
  have hcounted := counted_of_reachable (h.trans (.single trivial hstep))
  obtain ⟨u, hu, hcount⟩ := exists_resumed (s.arrive limit)
  refine ⟨_, u, hstep, hu, ?_⟩
  rw [hcount, ← hcounted.active]
  have hwoken : (s.arrive limit).woken = s.woken := by
    simp [arrive, Nat.not_le.2 hfree, woken, List.countP_append]
  have hactive : (s.arrive limit).active = s.active + 1 := by simp [arrive, Nat.not_le.2 hfree]
  omega

/-! ## Progress -/

/-- An endless run from no callers: every computation ends, and every woken caller goes on. -/
structure FairSlots (limit : ℕ) (states : ℕ → ComputeSlots) (actions : ℕ → ComputeAction) : Prop where
  start : states 0 = {}
  steps : Endless (step limit) states actions
  ends : ∀ i, WeakFair (fun n => (states n).callers[i]? = some .running) fun n =>
    ∃ succeeded, actions n = .settle i succeeded
  resumes : ∀ i, WeakFair (fun n => (states n).callers[i]? = some .woken) fun n => actions n = .resume i

section Fair

variable {states : ℕ → ComputeSlots} {actions : ℕ → ComputeAction} {n : ℕ}

theorem FairSlots.effect (h : FairSlots limit states actions) (n : ℕ) :
    SlotEffect limit (states n) (actions n) (states (n + 1)) := step_effect (h.steps n)

theorem FairSlots.counted (h : FairSlots limit states actions) (n : ℕ) : Counted limit (states n) :=
  counted_of_reachable (h.start ▸ h.steps.reachable n)

/-- A woken caller is admitted. -/
theorem FairSlots.woken_runs (h : FairSlots limit states actions) (hi : (states n).callers[i]? = some .woken) :
    ∃ m, n ≤ m ∧ (states m).callers[i]? = some .running := by
  by_contra hnever
  push Not at hnever
  have hstays : ∀ m, n ≤ m → (states m).callers[i]? = some .woken := by
    intro m hm
    induction m, hm using Nat.le_induction with
    | base => exact hi
    | succ m hm ih =>
      rcases phase_effect (h.effect m) ih with hsame | ⟨-, -, hrun⟩ | ⟨hphase, -⟩ | ⟨-, -, hwoken⟩
      · exact hsame
      · exact absurd hrun (hnever (m + 1) (by omega))
      · exact nomatch hphase
      · exact hwoken
  obtain ⟨m, hm, haction⟩ := h.resumes i n hstays
  have heffect := h.effect m
  rw [haction] at heffect
  have hafter := hstays (m + 1) (by omega)
  cases hnext : states (m + 1) with
  | mk callers active queue =>
    rw [hnext] at heffect hafter
    cases heffect with
    | resumed _ hwoken =>
      rw [Actors.getElem?_set_self_of_some hwoken] at hafter
      exact nomatch hafter

/-- While a slot is taken or promised, some computation ends. -/
theorem FairSlots.exists_settle (h : FairSlots limit states actions)
    (hbusy : 0 < (states n).active + (states n).woken) :
    ∃ m, n ≤ m ∧ ∃ i succeeded, actions m = .settle i succeeded := by
  have hrunning {k i : ℕ} (hi : (states k).callers[i]? = some .running) :
      ∃ m, k ≤ m ∧ ∃ i succeeded, actions m = .settle i succeeded := by
    by_contra hnever
    push Not at hnever
    have hstays : ∀ m, k ≤ m → (states m).callers[i]? = some .running := by
      intro m hm
      induction m, hm using Nat.le_induction with
      | base => exact hi
      | succ m hm ih =>
        rcases phase_effect (h.effect m) ih with hsame | ⟨hphase, -⟩ | ⟨-, succeeded, haction⟩ | ⟨⟨j, ok, haction⟩, -⟩
        · exact hsame
        · exact nomatch hphase
        · exact absurd haction (hnever m hm i succeeded)
        · exact absurd haction (hnever m hm j ok)
    obtain ⟨m, hm, succeeded, haction⟩ := h.ends i k hstays
    exact hnever m hm i succeeded haction
  have hcase : (∃ i : ℕ, (states n).callers[i]? = some .running) ∨ ∃ i : ℕ, (states n).callers[i]? = some .woken := by
    rw [(h.counted n).active] at hbusy
    rcases Nat.eq_zero_or_pos (states n).running with hzero | hpos
    · have hwoken : 0 < (states n).woken := by omega
      obtain ⟨phase, hmem, hphase⟩ := List.countP_pos_iff.1 hwoken
      obtain rfl := of_decide_eq_true hphase
      exact Or.inr (List.mem_iff_getElem?.1 hmem)
    · obtain ⟨phase, hmem, hphase⟩ := List.countP_pos_iff.1 hpos
      obtain rfl := of_decide_eq_true hphase
      exact Or.inl (List.mem_iff_getElem?.1 hmem)
  rcases hcase with ⟨i, hi⟩ | ⟨i, hi⟩
  · exact hrunning hi
  · obtain ⟨k, hk, hrun⟩ := h.woken_runs hi
    obtain ⟨m, hm, haction⟩ := hrunning hrun
    exact ⟨m, hk.trans hm, haction⟩

/-- The place of a caller in the queue does not rise while it waits, and falls with every computation that ends. -/
theorem place_effect (hcounted : Counted limit s) (heffect : SlotEffect limit s action t)
    (hi : s.callers[i]? = some .waiting) (ht : t.callers[i]? = some .waiting) :
    t.queue.idxOf i ≤ s.queue.idxOf i ∧
      ((∃ j succeeded, action = .settle j succeeded) → t.queue.idxOf i < s.queue.idxOf i) := by
  have hmem := (hcounted.queue i).2 hi
  cases heffect with
  | queued =>
    refine ⟨(List.idxOf_append_of_mem hmem).le, ?_⟩
    rintro ⟨j, succeeded, haction⟩
    cases haction
  | taken => exact ⟨le_rfl, fun ⟨_, _, haction⟩ => nomatch haction⟩
  | resumed => exact ⟨le_rfl, fun ⟨_, _, haction⟩ => nomatch haction⟩
  | released j succeeded hrunning hqueue => exact absurd (hqueue ▸ hmem) List.not_mem_nil
  | handed j succeeded next queue hrunning hqueue =>
    have hne : next ≠ i := by
      rintro rfl
      rcases Actors.getElem?_set_cases ht with ⟨-, hphase⟩ | ⟨hself, -⟩
      · exact nomatch hphase
      · exact hself rfl
    have hplace : s.queue.idxOf i = queue.idxOf i + 1 := by
      rw [hqueue, List.idxOf_cons_ne _ hne]
    exact ⟨by dsimp only; omega, fun _ => by dsimp only; omega⟩
  | idle => exact ⟨le_rfl, fun ⟨_, _, haction⟩ => nomatch haction⟩

/-- A caller that waits is woken, and then admitted. -/
theorem FairSlots.admitted (h : FairSlots limit states actions) (hlimit : 1 ≤ limit)
    (hi : (states n).callers[i]? = some .waiting) : ∃ m, n ≤ m ∧ (states m).callers[i]? = some .running := by
  by_contra hnever
  push Not at hnever
  have hstays : ∀ m, n ≤ m → (states m).callers[i]? = some .waiting := by
    intro m hm
    induction m, hm using Nat.le_induction with
    | base => exact hi
    | succ m hm ih =>
      rcases phase_effect (h.effect m) ih with hsame | ⟨hphase, -⟩ | ⟨hphase, -⟩ | ⟨-, -, hwoken⟩
      · exact hsame
      · exact nomatch hphase
      · exact nomatch hphase
      · obtain ⟨k, hk, hrun⟩ := h.woken_runs hwoken
        exact absurd hrun (hnever k (by omega))
  have hplace (m : ℕ) (hm : n ≤ m) :=
    place_effect (h.counted m) (h.effect m) (hstays m hm) (hstays (m + 1) (by omega))
  obtain ⟨k, hk, hconst⟩ := eventually_const (f := fun m => (states m).queue.idxOf i) fun m hm => (hplace m hm).1
  have hbusy : 0 < (states k).active + (states k).woken := by
    have hqueue : (states k).queue ≠ [] := List.ne_nil_of_mem (((h.counted k).queue i).2 (hstays k hk))
    have hle := (h.counted k).busy hqueue
    omega
  obtain ⟨m, hm, haction⟩ := h.exists_settle hbusy
  have hfalls := (hplace m (hk.trans hm)).2 haction
  have hsame := hconst m hm
  have hsame' := hconst (m + 1) (by omega)
  omega

end Fair

/-- Where every caller that takes a slot finds one that is not promised, at most `limit` callbacks are active, and a
caller that takes a promised slot can lead to more. In every run the counter is the number of active callbacks, so it
is 0 when all callers have finished; and if computations end and woken callers go on, whoever waits is admitted. -/
theorem compute_slots (limit : ℕ) (hlimit : 1 ≤ limit) :
    (∀ s, ReachableVia (step limit) (Roomy limit) {} s → s.running ≤ limit) ∧
      (∀ s action, Reachable (step limit) {} s → ¬Roomy limit s action →
        ∃ t u, step limit s action = some t ∧ Reachable (step limit) t u ∧ limit < u.running) ∧
      (∀ s, Reachable (step limit) {} s → s.active = s.running ∧
        ((∀ phase ∈ s.callers, ∃ succeeded, phase = .done succeeded) → s.active = 0)) ∧
      ∀ (states : ℕ → ComputeSlots) (actions : ℕ → ComputeAction), FairSlots limit states actions →
        ∀ n i : ℕ, (states n).callers[i]? = some .waiting → ∃ m, n ≤ m ∧ (states m).callers[i]? = some .running := by
  refine ⟨fun s hs => ?_, fun s action hs => overflow hs, fun s hs => ?_,
    fun states actions h n i => h.admitted hlimit⟩
  · have hactive := (counted_of_reachable hs.reachable).active
    have hpromised := promised_le hs
    omega
  · have hactive := (counted_of_reachable hs).active
    refine ⟨hactive, fun hdone => hactive.trans (List.countP_eq_zero.2 fun phase hphase => ?_)⟩
    obtain ⟨succeeded, rfl⟩ := hdone phase hphase
    exact Bool.false_ne_true

theorem compute_slots_sample : ∃ s : ComputeSlots, s.callers = [.done true, .running] ∧ s.running ≤ 1 := by
  have hrun : (runIf (fun s action => decide (Roomy 1 s action)) (step 1) {}
      [.arrive, .arrive, .settle 0 true, .resume 1]).any (fun s => s.callers = [.done true, .running]) = true := by
    decide +kernel
  obtain ⟨s, hs, hcallers⟩ := exists_of_runIf (fun _ _ => of_decide_eq_true) hrun
  exact ⟨s, of_decide_eq_true hcallers, (compute_slots 1 (by decide)).1 s hs⟩

/-- One slot: who comes between the end of a computation and the turn of the woken caller computes beside it. -/
theorem two_compute : ∃ s, Reachable (step 1) {} s ∧ 1 < s.running := by
  have hrun : (run (step 1) {} [.arrive, .arrive, .settle 0 true, .arrive, .resume 1]).any (fun s => 1 < s.running) =
      true := by decide +kernel
  obtain ⟨s, hs, hrunning⟩ := exists_of_run hrun
  exact ⟨s, hs, of_decide_eq_true hrunning⟩

/-! ## The order of admission -/

/-- The queue is in the order of arrival. -/
theorem Counted.sorted (h : Counted limit s) (heffect : SlotEffect limit s action t)
    (hsorted : s.queue.Pairwise (· < ·)) : t.queue.Pairwise (· < ·) := by
  cases heffect with
  | queued =>
    refine List.pairwise_append.2 ⟨hsorted, List.pairwise_singleton _ _, fun k hk l hl => ?_⟩
    rw [List.mem_singleton.1 hl]
    exact (List.getElem?_eq_some_iff.1 ((h.queue k).1 hk)).1
  | handed k succeeded next queue hrunning hqueue => exact (List.pairwise_cons.1 (hqueue ▸ hsorted)).2
  | _ => exact hsorted

/-- As long as the first caller is in the queue, the second is. -/
def After (s : ComputeSlots) (i j : ℕ) : Prop := j < s.callers.length ∧ (i ∈ s.queue → j ∈ s.queue)

theorem After.step (h : After s i j) (hij : i < j) (hsorted : s.queue.Pairwise (· < ·))
    (heffect : SlotEffect limit s action t) : After t i j := by
  obtain ⟨hlt, hfirst⟩ := h
  cases heffect with
  | queued =>
    refine ⟨by rw [List.length_append]; exact Nat.lt_add_right _ hlt, fun hi => List.mem_append_left _ (hfirst ?_)⟩
    refine (List.mem_append.1 hi).resolve_right fun hlast => ?_
    exact (hij.trans hlt).ne (List.mem_singleton.1 hlast)
  | taken => exact ⟨by rw [List.length_append]; exact Nat.lt_add_right _ hlt, hfirst⟩
  | resumed => exact ⟨by rwa [List.length_set], hfirst⟩
  | released => exact ⟨by rwa [List.length_set], hfirst⟩
  | handed k succeeded next queue hrunning hqueue =>
    refine ⟨by rwa [List.length_set, List.length_set], fun hi => ?_⟩
    have hj : j ∈ next :: queue := hqueue ▸ hfirst (hqueue ▸ List.mem_cons_of_mem _ hi)
    refine (List.mem_cons.1 hj).resolve_left ?_
    rintro rfl
    exact hij.not_gt ((List.pairwise_cons.1 (hqueue ▸ hsorted)).1 i hi)
  | idle => exact ⟨hlt, hfirst⟩

/-- **First come, first served.** In every run, as long as a caller waits, whoever began to wait after it waits too. -/
theorem admitted_in_order (limit : ℕ) (h : Reachable (step limit) {} s) (hij : i < j)
    (hj : s.callers[j]? = some .waiting) (hlater : Reachable (step limit) s t)
    (hi : t.callers[i]? = some .waiting) : t.callers[j]? = some .waiting := by
  have hstart : Counted limit s ∧ s.queue.Pairwise (· < ·) :=
    h.invariant (I := fun s => Counted limit s ∧ s.queue.Pairwise (· < ·)) ⟨.start, .nil⟩ fun _ _ _ hs _ hstep =>
      ⟨hs.1.step (step_effect hstep), hs.1.sorted (step_effect hstep) hs.2⟩
  have hafter : After s i j := ⟨(List.getElem?_eq_some_iff.1 hj).1, fun _ => (hstart.1.queue j).2 hj⟩
  obtain ⟨hcounted, -, -, hfirst⟩ :=
    hlater.invariant (I := fun t => Counted limit t ∧ t.queue.Pairwise (· < ·) ∧ After t i j)
      ⟨hstart.1, hstart.2, hafter⟩ fun _ _ _ hs _ hstep => ⟨hs.1.step (step_effect hstep),
        hs.1.sorted (step_effect hstep) hs.2.1, hs.2.2.step hij hs.2.1 (step_effect hstep)⟩
  exact (hcounted.queue j).1 (hfirst ((hcounted.queue i).2 hi))

theorem admitted_in_order_sample : ∃ t : ComputeSlots, t.active = 1 ∧ t.callers[2]? = some .waiting := by
  refine ⟨⟨[.running, .waiting, .waiting, .waiting], 1, [1, 2, 3]⟩, rfl, ?_⟩
  have h : Reachable (step 1) {} ⟨[.running, .waiting, .waiting], 1, [1, 2]⟩ :=
    reachable_of_run (rfl : run (step 1) {} [.arrive, .arrive, .arrive] = some _)
  have hlater := reachable_of_run (rfl : run (step 1) ⟨[.running, .waiting, .waiting], 1, [1, 2]⟩ [.arrive] = some _)
  exact admitted_in_order 1 h (i := 1) (by decide) rfl hlater rfl

end ComputeSlots

end AmoAnalytics.Reports
