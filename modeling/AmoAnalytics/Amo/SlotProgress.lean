import AmoAnalytics.Amo.RequestSlots
import AmoAnalytics.Lib.Endless

/-!
# The progress of the request slots

In an endless run in which the clock passes every time and the body of a slot whose turn has come goes on, every slot
settles. While a slot waits at the head of the queue nothing is granted, so only the requests that are in flight can
set a pause, each of them once; after the last of these pauses the slot passes its waits.
-/

namespace AmoAnalytics.Amo

open Run

/-- The request of the slot has no response yet. -/
def SlotPhase.inFlight : SlotPhase → Bool
  | granted _ => true
  | queued | looping | refreshing | answered _ | rejected => false

namespace Limiter

variable {minDelay : ℚ} {s t : Limiter} {a : SlotAction}

/-! ## Requests in flight -/

def inFlight (s : Limiter) : ℕ := s.slots.countP (·.phase.inFlight)

theorem inFlight_set {i : ℕ} {slot : RequestSlot} (slot' : RequestSlot) (h : s.slots[i]? = some slot) :
    (s.setSlot i slot').inFlight + slot.phase.inFlight.toNat = s.inFlight + slot'.phase.inFlight.toNat := by
  obtain ⟨hlt, rfl⟩ := List.getElem?_eq_some_iff.1 h
  have hset : (s.setSlot i slot').inFlight = s.inFlight - (if s.slots[i].phase.inFlight then 1 else 0) +
      (if slot'.phase.inFlight then 1 else 0) := List.countP_set hlt
  rw [hset]
  cases hflight : s.slots[i].phase.inFlight <;> cases slot'.phase.inFlight <;> simp
  all_goals
    have hone : 0 < s.inFlight := List.countP_pos_iff.2 ⟨_, List.getElem_mem hlt, hflight⟩
    omega

theorem inFlight_pending {p : SlotPhase} (h : p.settled = false) : p.inFlight = false := by
  cases p <;> first | rfl | exact nomatch h

/-- A step that grants no slot adds no request in flight, keeps the time of the last request, and moves the pause only
with a response. -/
theorem inFlight_effect (h : SlotEffect minDelay s a t) (hnone : ∀ i, s.phase? i = some .refreshing → ¬ t.Settled i) :
    t.inFlight ≤ s.inFlight ∧ t.lastRequestAt = s.lastRequestAt ∧
      (t.inFlight = s.inFlight → t.pausedUntil = s.pausedUntil) := by
  have hset : ∀ {i : ℕ} {slot : RequestSlot} (p : SlotPhase), s.slots[i]? = some slot →
      slot.phase.settled = false → p.inFlight = false →
      (s.setSlot i { slot with phase := p }).inFlight = s.inFlight := by
    intro i slot p hslot hpending hp
    have hcount := inFlight_set { slot with phase := p } hslot
    rw [inFlight_pending hpending, hp] at hcount
    exact hcount
  cases h with
  | tick => exact ⟨le_rfl, rfl, fun _ => rfl⟩
  | reserve => exact ⟨by simp [inFlight, SlotPhase.inFlight], rfl, fun _ => rfl⟩
  | abort i slot hslot =>
    have hcount := inFlight_set { slot with aborted := true } hslot
    exact ⟨(Nat.add_right_cancel hcount).le, rfl, fun _ => rfl⟩
  | wait _ i slot _ hslot hpending => exact ⟨(hset .looping hslot hpending rfl).le, rfl, fun _ => rfl⟩
  | pass i slot hslot hpending => exact ⟨(hset .refreshing hslot hpending rfl).le, rfl, fun _ => rfl⟩
  | reject _ i slot _ hslot hpending => exact ⟨(hset .rejected hslot hpending rfl).le, rfl, fun _ => rfl⟩
  | grant i slot hslot hphase =>
    refine absurd ⟨.granted s.now, ?_, rfl⟩ (hnone i (hphase ▸ phase?_of_slot hslot))
    exact (phase?_grant hslot i).trans (if_pos rfl)
  | answer i slot start retryAfter hslot hphase =>
    have hflight : slot.phase.inFlight = true := by rw [hphase]; rfl
    have hless : (s.setSlot i { slot with phase := .answered start }).inFlight + 1 = s.inFlight := by
      have := inFlight_set { slot with phase := .answered start } hslot
      rw [hflight] at this
      simpa [SlotPhase.inFlight] using this
    have hanswer : (s.answer i slot start retryAfter).inFlight + 1 = s.inFlight := by
      cases retryAfter <;> exact hless
    refine ⟨by omega, by cases retryAfter <;> rfl, fun heq => by omega⟩

/-! ## A slot at the head of the queue -/

/-- The slot is pending and the slot before it has settled. -/
def CanMove (s : Limiter) (i : ℕ) : Prop := ∃ p, s.phase? i = some p ∧ p.settled = false ∧ s.turn i = true

/-- When the interval and the pause are over, a pass of the slot's body takes it to its token or settles it. -/
theorem runs_effect (h : SlotEffect minDelay s a t) {i : ℕ} (hruns : a.runs = some i)
    (hover : max (s.lastRequestAt + minDelay) s.pausedUntil ≤ s.now) :
    t.Settled i ∨ (t.phase? i = some .refreshing ∧ s.phase? i ≠ some .refreshing) := by
  cases h with
  | tick => exact nomatch hruns
  | reserve => exact nomatch hruns
  | abort => exact nomatch hruns
  | answer => exact nomatch hruns
  | wait _ j slot hj hslot hpending hturn hwait => exact absurd hwait hover.not_gt
  | pass j slot hslot hpending hlooping =>
    obtain rfl : j = i := Option.some.inj hruns
    refine Or.inr ⟨by rw [phase?_set hslot, if_pos rfl], fun hphase => hlooping ?_⟩
    exact Option.some.inj ((phase?_of_slot hslot).symm.trans hphase)
  | reject _ j slot hj hslot =>
    obtain rfl : j = i := Option.some.inj (hj.symm.trans hruns)
    exact Or.inl ⟨.rejected, by rw [phase?_set hslot, if_pos rfl], rfl⟩
  | grant j slot hslot =>
    obtain rfl : j = i := Option.some.inj hruns
    exact Or.inl ⟨_, by rw [phase?_grant hslot, if_pos rfl], rfl⟩

/-- It stays with its token until it settles. -/
theorem refreshing_effect (h : SlotEffect minDelay s a t) {i : ℕ} (hphase : s.phase? i = some .refreshing)
    (hover : max (s.lastRequestAt + minDelay) s.pausedUntil ≤ s.now) :
    t.Settled i ∨ t.phase? i = some .refreshing := by
  obtain ⟨p, hp⟩ : ∃ p, t.phase? i = some p :=
    exists_phase.2 ((exists_phase.1 ⟨_, hphase⟩).trans_le (length_effect h))
  have hmove := phase?_effect h hp
  rw [hphase] at hmove
  cases hmove with
  | stays => exact Or.inr hp
  | waits _ _ _ hwait => exact absurd hwait hover.not_gt
  | passes => exact Or.inr hp
  | rejects => exact Or.inl ⟨_, hp, rfl⟩
  | grants => exact Or.inl ⟨_, hp, rfl⟩

/-! ## Fair runs -/

/-- An endless run from a new client: the clock passes every time, and the body of a slot whose turn has come goes on
(its timer fires, its token request ends). -/
structure FairRun (minDelay now : ℚ) (states : ℕ → Limiter) (actions : ℕ → SlotAction) : Prop where
  start : states 0 = create now
  steps : Endless (step minDelay) states actions
  time : ∀ T, ∃ n, T ≤ (states n).now
  fair : ∀ i, WeakFair (fun n => (states n).CanMove i) fun n => (actions n).runs = some i

section Fair

variable {now : ℚ} {states : ℕ → Limiter} {actions : ℕ → SlotAction} {i n : ℕ}

theorem FairRun.effect (h : FairRun minDelay now states actions) (n : ℕ) :
    SlotEffect minDelay (states n) (actions n) (states (n + 1)) := step_effect (h.steps n)

theorem FairRun.spaced (h : FairRun minDelay now states actions) (hmin : 0 ≤ minDelay) (n : ℕ) :
    Spaced minDelay (states n) := spaced_of_reachable hmin (h.start ▸ h.steps.reachable n)

theorem FairRun.settled_mono (h : FairRun minDelay now states actions) {n m : ℕ} (hle : n ≤ m)
    (hsettled : (states n).Settled i) : (states m).Settled i :=
  h.steps.stable (fun _ _ _ _ hstep => settled_effect (step_effect hstep)) hle hsettled

theorem FairRun.now_mono (h : FairRun minDelay now states actions) {n m : ℕ} (hle : n ≤ m) :
    (states n).now ≤ (states m).now :=
  h.steps.stable (P := fun s => (states n).now ≤ s.now)
    (fun _ _ _ _ hstep hnow => hnow.trans (now_effect (step_effect hstep))) hle le_rfl

/-- A slot that never settles is left at the head of the queue with the interval and the pause over. -/
theorem FairRun.waits_over (h : FairRun minDelay now states actions) (hmin : 0 ≤ minDelay)
    (hhead : ∀ m, n ≤ m → (states m).CanMove i) : ∃ k, n ≤ k ∧ ∀ m, k ≤ m →
      max ((states m).lastRequestAt + minDelay) (states m).pausedUntil ≤ (states m).now := by
  have hpending : ∀ m, n ≤ m → ¬ (states m).Settled i := by
    intro m hm
    obtain ⟨p, hp, hpending, -⟩ := hhead m hm
    exact not_settled_of_phase hp hpending
  -- Nothing is granted: whoever has its token request has all earlier slots settled, and is not the slot itself.
  have hstep : ∀ m, n ≤ m → (states (m + 1)).inFlight ≤ (states m).inFlight ∧
      (states (m + 1)).lastRequestAt = (states m).lastRequestAt ∧
      ((states (m + 1)).inFlight = (states m).inFlight →
        (states (m + 1)).pausedUntil = (states m).pausedUntil) := by
    intro m hm
    refine inFlight_effect (h.effect m) fun j hj hsettled => ?_
    have hspaced := h.spaced hmin m
    rcases Nat.lt_trichotomy j i with hlt | rfl | hgt
    · obtain ⟨p, hp, -, hturn⟩ := hhead m hm
      exact not_settled_of_phase hj rfl (hspaced.settled_ahead hlt hp fun _ => hturn)
    · exact hpending (m + 1) (by omega) hsettled
    · exact hpending m hm (hspaced.ahead hgt hj nofun)
  obtain ⟨k, hk, hconst⟩ := eventually_const (f := fun m => (states m).inFlight) fun m hm => (hstep m hm).1
  have hsame : ∀ m, k ≤ m → (states m).lastRequestAt = (states k).lastRequestAt ∧
      (states m).pausedUntil = (states k).pausedUntil := by
    intro m hm
    induction m, hm using Nat.le_induction with
    | base => exact ⟨rfl, rfl⟩
    | succ m hm ih =>
      obtain ⟨-, hlast, hpause⟩ := hstep m (hk.trans hm)
      have hflight : (states (m + 1)).inFlight = (states m).inFlight :=
        (hconst (m + 1) (by omega)).trans (hconst m hm).symm
      exact ⟨hlast.trans ih.1, (hpause hflight).trans ih.2⟩
  obtain ⟨l, hl⟩ := h.time (max ((states k).lastRequestAt + minDelay) (states k).pausedUntil)
  refine ⟨max k l, hk.trans (le_max_left _ _), fun m hm => ?_⟩
  obtain ⟨hlast, hpause⟩ := hsame m ((le_max_left _ _).trans hm)
  rw [hlast, hpause]
  exact hl.trans (h.now_mono ((le_max_right _ _).trans hm))

/-- A slot at the head of the queue settles. -/
theorem FairRun.head_settles (h : FairRun minDelay now states actions) (hmin : 0 ≤ minDelay)
    (hslot : i < (states n).slots.length) (hahead : ∀ j < i, (states n).Settled j) :
    ∃ m, n ≤ m ∧ (states m).Settled i := by
  by_contra hnever
  push Not at hnever
  have hhead : ∀ m, n ≤ m → (states m).CanMove i := by
    intro m hm
    have hlen : (states n).slots.length ≤ (states m).slots.length :=
      h.steps.stable (P := fun s => (states n).slots.length ≤ s.slots.length)
        (fun _ _ _ _ hstep hle => hle.trans (length_effect (step_effect hstep))) hm le_rfl
    obtain ⟨p, hp⟩ := exists_phase.2 (hslot.trans_le hlen)
    refine ⟨p, hp, ?_, ?_⟩
    · by_contra hsettled
      exact hnever m hm ⟨p, hp, by simpa using hsettled⟩
    · rcases Nat.eq_zero_or_pos i with rfl | hpos
      · rfl
      · obtain ⟨q, hq, hsettled⟩ := h.settled_mono hm (hahead (i - 1) (by omega))
        obtain ⟨slot, hslot, rfl⟩ := Option.map_eq_some_iff.1 hq
        rw [turn, hslot, Option.any_some, hsettled, Bool.or_true]
  obtain ⟨k, hk, hover⟩ := h.waits_over hmin hhead
  obtain ⟨m, hm, hruns⟩ := h.fair i k fun m hm => hhead m (hk.trans hm)
  have hrefreshing := (runs_effect (h.effect m) hruns (hover m hm)).resolve_left (hnever (m + 1) (by omega))
  have hstays : ∀ l, m + 1 ≤ l → (states l).phase? i = some .refreshing := by
    intro l hl
    induction l, hl using Nat.le_induction with
    | base => exact hrefreshing.1
    | succ l hl ih =>
      exact (refreshing_effect (h.effect l) ih (hover l (by omega))).resolve_left (hnever (l + 1) (by omega))
  obtain ⟨l, hl, hruns⟩ := h.fair i (m + 1) fun l hl => hhead l (by omega)
  have hsettles := runs_effect (h.effect l) hruns (hover l (by omega))
  exact hsettles.elim (hnever (l + 1) (by omega)) fun hleft => hleft.2 (hstays l hl)

/-- Every slot settles: its place in the queue is finite, and the slots before it settle one after the other. -/
theorem FairRun.settles (h : FairRun minDelay now states actions) (hmin : 0 ≤ minDelay)
    (hslot : i < (states n).slots.length) : ∃ m, n ≤ m ∧ (states m).Settled i := by
  induction i using Nat.strong_induction_on generalizing n with
  | _ i ih =>
    have hahead : ∀ k ≤ i, ∃ m, n ≤ m ∧ ∀ j < k, (states m).Settled j := by
      intro k hk
      induction k with
      | zero => exact ⟨n, le_rfl, nofun⟩
      | succ k ihk =>
        obtain ⟨m, hm, hsettled⟩ := ihk (by omega)
        obtain ⟨m', hm', hnext⟩ := ih k (by omega) (n := n) (by omega)
        refine ⟨max m m', hm.trans (le_max_left _ _), fun j hj => ?_⟩
        rcases Nat.lt_succ_iff_lt_or_eq.1 hj with hj | rfl
        · exact h.settled_mono (le_max_left _ _) (hsettled j hj)
        · exact h.settled_mono (le_max_right _ _) hnext
    obtain ⟨m, hm, hsettled⟩ := hahead i le_rfl
    have hlen : (states n).slots.length ≤ (states m).slots.length :=
      h.steps.stable (P := fun s => (states n).slots.length ≤ s.slots.length)
        (fun _ _ _ _ hstep hle => hle.trans (length_effect (step_effect hstep))) hm le_rfl
    obtain ⟨l, hl, hi⟩ := h.head_settles hmin (hslot.trans_le hlen) hsettled
    exact ⟨l, hm.trans hl, hi⟩

/-! ## Rejected slots -/

theorem aborted_effect (h : SlotEffect minDelay s a t) (haborted : t.Aborted i) : s.Aborted i ∨ a = .abort i := by
  obtain ⟨slot', hslot', hflag⟩ := haborted
  have hset : ∀ {j : ℕ} {slot : RequestSlot} {p : SlotPhase}, s.slots[j]? = some slot →
      (s.slots.set j { slot with phase := p })[i]? = some slot' → s.Aborted i := by
    intro j slot p hslot hset
    rcases Actors.getElem?_set_cases hset with ⟨rfl, rfl⟩ | ⟨-, hold⟩
    · exact ⟨slot, hslot, hflag⟩
    · exact ⟨slot', hold, hflag⟩
  cases h with
  | tick => exact Or.inl ⟨slot', hslot', hflag⟩
  | reserve =>
    rcases Actors.getElem?_append_cases hslot' with hold | ⟨-, hnew⟩
    · exact Or.inl ⟨slot', hold, hflag⟩
    · rw [List.mem_singleton.1 hnew] at hflag
      exact nomatch hflag
  | abort j slot hslot =>
    rcases Actors.getElem?_set_cases hslot' with ⟨rfl, -⟩ | ⟨-, hold⟩
    · exact Or.inr rfl
    · exact Or.inl ⟨slot', hold, hflag⟩
  | wait _ j slot _ hslot => exact Or.inl (hset hslot hslot')
  | pass j slot hslot => exact Or.inl (hset hslot hslot')
  | reject _ j slot _ hslot => exact Or.inl (hset hslot hslot')
  | grant j slot hslot => exact Or.inl (hset hslot hslot')
  | answer j slot start retryAfter hslot => cases retryAfter <;> exact Or.inl (hset hslot hslot')

/-- A slot is rejected when its own request is aborted or its own token request fails. -/
theorem FairRun.rejected_cause (h : FairRun minDelay now states actions) {m : ℕ}
    (hphase : (states m).phase? i = some .rejected) :
    ∃ k < m, actions k = .abort i ∨ actions k = .fresh i false := by
  have hstart : ¬ (states 0).phase? i = some .rejected := by
    rw [h.start]
    exact nofun
  obtain ⟨k, hk, -, hnot, hrejected⟩ := h.steps.exists_step (P := fun s => s.phase? i = some .rejected) hstart hphase
  have hmove := phase?_effect (h.effect k) hrejected
  generalize hbefore : (states k).phase? i = before at hmove
  cases hmove with
  | stays => exact absurd hbefore hnot
  | rejects q _ _ hwhy =>
    rcases hwhy with haborted | hfailed
    · have hfirst : ¬ (states 0).Aborted i := by
        rw [h.start]
        rintro ⟨slot, hslot, -⟩
        exact nomatch hslot
      obtain ⟨l, hl, -, hnot', haborted'⟩ := h.steps.exists_step
        (P := fun s => s.Aborted i) hfirst haborted
      exact ⟨l, by omega, Or.inl ((aborted_effect (h.effect l) haborted').resolve_left hnot')⟩
    · exact ⟨k, hk, Or.inr hfailed⟩

end Fair

/-! ## The spacing of the requests -/

/-- The granted start of a slot. -/
def startOf (s : Limiter) (i : ℕ) : Option ℚ := (s.phase? i).bind (·.start)

theorem startOf_eq_some {i : ℕ} {g : ℚ} : s.startOf i = some g ↔ ∃ p, s.phase? i = some p ∧ p.start = some g :=
  Option.bind_eq_some_iff

/-- **Request spacing.** The starts of a client are at least the configured interval apart and follow the queue; a
slot is granted the present time when no pause that was set lasts longer; and in every fair run every slot is granted
a start, unless its request is aborted or its token request fails. -/
theorem request_spacing (minRequestIntervalMs : Option (Option ℚ)) (now : ℚ) :
    (∀ interval, minRequestIntervalMs = some (some interval) → interval ≤ minDelayMs minRequestIntervalMs) ∧
    (∀ s, Reachable (step (minDelayMs minRequestIntervalMs)) (create now) s →
      (∀ i j g g', i < j → s.startOf i = some g → s.startOf j = some g' →
        g + minDelayMs minRequestIntervalMs ≤ g') ∧
      (∀ i j g, i < j → s.startOf j = some g → s.Settled i) ∧
      ∀ a t i g, s.step (minDelayMs minRequestIntervalMs) a = some t → s.startOf i = none → t.startOf i = some g →
        g = s.now ∧ ∀ e ∈ s.pauses, e ≤ g) ∧
    ∀ states actions, FairRun (minDelayMs minRequestIntervalMs) now states actions →
      ∀ i n, i < (states n).slots.length → ∃ m, n ≤ m ∧ ((∃ g, (states m).startOf i = some g) ∨
        ((states m).phase? i = some .rejected ∧ ∃ k < m, actions k = .abort i ∨ actions k = .fresh i false)) := by
  have hmin := minDelayMs_nonneg minRequestIntervalMs
  refine ⟨?_, fun s hs => ?_, fun states actions hrun i n hslot => ?_⟩
  · rintro interval rfl
    exact le_minDelayMs interval
  · have hspaced := spaced_of_reachable hmin hs
    refine ⟨fun i j g g' hij hg hg' => ?_, fun i j g hij hg => ?_, fun a t i g hstep hnone hg => ?_⟩
    · obtain ⟨p, hp, hstart⟩ := startOf_eq_some.1 hg
      obtain ⟨q, hq, hstart'⟩ := startOf_eq_some.1 hg'
      exact hspaced.apart hij hp hq hstart hstart'
    · obtain ⟨p, hp, hstart⟩ := startOf_eq_some.1 hg
      exact hspaced.ahead hij hp (by rintro rfl; exact nomatch hstart)
    · obtain ⟨p, hp, hstart⟩ := startOf_eq_some.1 hg
      rcases start_effect (step_effect hstep) hp hstart with hold | ⟨-, rfl, hpause, -⟩
      · exact nomatch hnone.symm.trans (startOf_eq_some.2 hold)
      · exact ⟨rfl, fun e he => (hspaced.paused e he).trans hpause⟩
  · obtain ⟨m, hm, p, hp, hsettled⟩ := hrun.settles hmin hslot
    refine ⟨m, hm, ?_⟩
    cases p with
    | granted g => exact Or.inl ⟨g, startOf_eq_some.2 ⟨_, hp, rfl⟩⟩
    | answered g => exact Or.inl ⟨g, startOf_eq_some.2 ⟨_, hp, rfl⟩⟩
    | rejected => exact Or.inr ⟨hp, hrun.rejected_cause hp⟩
    | _ => exact nomatch hsettled

section Sample

/-- Two requests, the second during the pause that the response of the first one sets. -/
def pausedRun : List SlotAction :=
  [.reserve, .reserve, .loop 0, .fresh 0 true, .respond 0 (some 1_000), .loop 1, .tick 1_000, .loop 1, .fresh 1 true]

/-- One request, and the clock for ever. -/
def quietActions : ℕ → SlotAction
  | 0 => .reserve
  | 1 => .loop 0
  | 2 => .fresh 0 true
  | _ + 3 => .tick 1

def quietStates : ℕ → Limiter
  | 0 => create 5_000
  | 1 => { now := 5_000, slots := [{}] }
  | 2 => { now := 5_000, slots := [{ phase := .refreshing }] }
  | n + 3 => { now := 5_000 + n, lastRequestAt := 5_000, slots := [{ phase := .granted 5_000 }] }

theorem fairRun_quiet : FairRun (minDelayMs (some (some 250))) 5_000 quietStates quietActions where
  start := rfl
  steps n := by
    rcases n with _ | _ | _ | n
    · rfl
    · decide +kernel
    · decide +kernel
    · simp [step, quietActions, quietStates, add_assoc]
  time T := by
    obtain ⟨n, hn⟩ := exists_nat_ge T
    refine ⟨n + 3, hn.trans ?_⟩
    show (n : ℚ) ≤ 5_000 + n
    linarith
  fair i n henabled := by
    obtain ⟨p, hp, hpending, -⟩ := henabled (n + 3) (by omega)
    obtain ⟨slot, hslot, rfl⟩ := Option.map_eq_some_iff.1 hp
    have hmem : slot ∈ [{ phase := .granted 5_000 }] := List.mem_of_getElem? hslot
    rw [List.mem_singleton.1 hmem] at hpending
    cases hpending

/-- The starts of the two requests are the interval apart, and the request of the quiet run is granted. -/
theorem request_spacing_sample :
    (∃ s, Reachable (step (minDelayMs (some (some 250)))) (create 5_000) s ∧
      s.startOf 0 = some 5_000 ∧ s.startOf 1 = some 6_000 ∧ (5_000 : ℚ) + minDelayMs (some (some 250)) ≤ 6_000) ∧
    ∃ m, 1 ≤ m ∧ ((∃ g, (quietStates m).startOf 0 = some g) ∨ ((quietStates m).phase? 0 = some .rejected ∧
      ∃ k < m, quietActions k = .abort 0 ∨ quietActions k = .fresh 0 false)) := by
  have hrun : (run (step (minDelayMs (some (some 250)))) (create 5_000) pausedRun).any
      (fun s => s.startOf 0 = some 5_000 && s.startOf 1 = some 6_000) = true := by decide +kernel
  obtain ⟨s, hs, hstarts⟩ := exists_of_run hrun
  rw [Bool.and_eq_true, decide_eq_true_eq, decide_eq_true_eq] at hstarts
  refine ⟨⟨s, hs, hstarts.1, hstarts.2, ?_⟩, ?_⟩
  · exact ((request_spacing (some (some 250)) 5_000).2.1 s hs).1 0 1 _ _ (by decide) hstarts.1 hstarts.2
  · exact (request_spacing (some (some 250)) 5_000).2.2 quietStates quietActions fairRun_quiet 0 1 (by decide)

/-- A slot whose token request fails is never granted. -/
theorem rejected_forever : ∃ s, Reachable (step (minDelayMs none)) (create 5_000) s ∧ s.slots.length = 1 ∧
    ∀ t, Reachable (step (minDelayMs none)) s t → t.startOf 0 = none := by
  have hrun : (run (step (minDelayMs none)) (create 5_000) [.reserve, .loop 0, .fresh 0 false]).any
      (fun s => s.slots.length = 1 && s.phase? 0 = some .rejected) = true := by decide +kernel
  obtain ⟨s, hs, hphase⟩ := exists_of_run hrun
  rw [Bool.and_eq_true, decide_eq_true_eq, decide_eq_true_eq] at hphase
  refine ⟨s, hs, hphase.1, fun t ht => ?_⟩
  have hstays : t.phase? 0 = some .rejected := by
    refine ht.invariant (I := fun t => t.phase? 0 = some .rejected) hphase.2 fun u a v hu _ hstep => ?_
    have heffect := step_effect hstep
    obtain ⟨p, hp⟩ : ∃ p, v.phase? 0 = some p :=
      exists_phase.2 ((exists_phase.1 ⟨_, hu⟩).trans_le (length_effect heffect))
    have hmove := phase?_effect heffect hp
    rw [hu] at hmove
    cases hmove with
    | stays => exact hp
    | waits _ hpending => exact nomatch hpending
    | passes _ hpending => exact nomatch hpending
    | rejects _ hpending => exact nomatch hpending
  rw [startOf, hstays]
  rfl

end Sample

/-! ## Requests in a window -/

/-- The starts that were granted. -/
def starts (s : Limiter) : List ℚ := s.slots.filterMap (·.phase.start)

/-- The starts from one time to another. -/
def startsIn (s : Limiter) (since until_ : ℚ) : List ℚ := s.starts.filter fun g => since ≤ g ∧ g ≤ until_

theorem Spaced.starts_apart (h : Spaced minDelay s) : s.starts.Pairwise fun g g' => g + minDelay ≤ g' := by
  refine List.pairwise_filterMap.2 (List.pairwise_iff_getElem.2 fun i j hi hj hij g hg g' hg' => ?_)
  exact h.apart hij (phase?_of_slot (List.getElem?_eq_getElem hi)) (phase?_of_slot (List.getElem?_eq_getElem hj)) hg hg'

/-- The last of times that are `d` apart comes as many times `d` after the first as others do. -/
theorem add_length_mul_le {d last : ℚ} {times : List ℚ} {first : ℚ}
    (hapart : (first :: times).Pairwise fun g g' => g + d ≤ g') (hle : ∀ g ∈ first :: times, g ≤ last) :
    first + times.length * d ≤ last := by
  induction times generalizing first with
  | nil => simpa using hle first List.mem_cons_self
  | cons next times ih =>
    obtain ⟨hfirst, hrest⟩ := List.pairwise_cons.1 hapart
    have hnext := ih hrest fun g hg => hle g (List.mem_cons_of_mem _ hg)
    have hstep := hfirst next List.mem_cons_self
    rw [List.length_cons]
    push_cast
    linarith

theorem le_minDelayMs_default (minRequestIntervalMs : Option (Option ℚ)) : 160 ≤ minDelayMs minRequestIntervalMs := by
  rcases minRequestIntervalMs with _ | _ | interval
  · exact le_max_left _ _
  · exact le_rfl
  · exact le_max_left _ _

/-- **Request rate.** Whatever is configured and however requests, pauses and aborts interleave, the starts within any
window are at most one more than the intervals that fit in it, so at most seven requests start within a second. -/
theorem request_rate (minRequestIntervalMs : Option (Option ℚ)) (now : ℚ) (s : Limiter)
    (h : Reachable (step (minDelayMs minRequestIntervalMs)) (create now) s) (since : ℚ) :
    (∀ window, 0 ≤ window →
      ((s.startsIn since (since + window)).length - 1 : ℚ) * minDelayMs minRequestIntervalMs ≤ window) ∧
      (s.startsIn since (since + 1_000)).length ≤ 7 := by
  have hmin := le_minDelayMs_default minRequestIntervalMs
  have hwindow (window : ℚ) (hpos : 0 ≤ window) :
      ((s.startsIn since (since + window)).length - 1 : ℚ) * minDelayMs minRequestIntervalMs ≤ window := by
    have hapart := (spaced_of_reachable (by linarith) h).starts_apart.sublist
      (List.filter_sublist (p := fun g => since ≤ g ∧ g ≤ since + window))
    have hin : ∀ g ∈ s.startsIn since (since + window), since ≤ g ∧ g ≤ since + window :=
      fun g hg => of_decide_eq_true (List.mem_filter.1 hg).2
    change List.Pairwise _ (s.startsIn since (since + window)) at hapart
    cases htimes : s.startsIn since (since + window) with
    | nil =>
      rw [List.length_nil]
      push_cast
      linarith
    | cons first times =>
      rw [htimes] at hapart hin
      have hlast := add_length_mul_le hapart fun g hg => (hin g hg).2
      have hfirst := (hin first List.mem_cons_self).1
      rw [List.length_cons]
      push_cast
      linarith
  refine ⟨hwindow, ?_⟩
  by_contra hmany
  have hseven : (7 : ℚ) ≤ (s.startsIn since (since + 1_000)).length - 1 := by
    have hcast : (8 : ℚ) ≤ (s.startsIn since (since + 1_000)).length := by exact_mod_cast Nat.not_le.1 hmany
    linarith
  have hsecond := hwindow 1_000 (by norm_num)
  nlinarith

theorem request_rate_sample : ∃ s : Limiter, s.starts = [5_000, 6_000] ∧ (s.startsIn 5_000 (5_000 + 1_000)).length ≤ 7 := by
  have hrun : (run (step (minDelayMs (some (some 250)))) (create 5_000) pausedRun).any
      (fun s => s.starts = [5_000, 6_000]) = true := by decide +kernel
  obtain ⟨s, hs, hstarts⟩ := exists_of_run hrun
  exact ⟨s, of_decide_eq_true hstarts, (request_rate (some (some 250)) 5_000 s hs 5_000).2⟩

end Limiter

end AmoAnalytics.Amo
