import AmoAnalytics.Lib.Actors
import AmoAnalytics.Lib.Run

/-!
# The request slots of a client

`waitForRateLimit` of `amo-client.ts`: a request reserves a slot behind the last one, and the slot's body runs when
the slot before it has settled. The body waits until the interval since the last granted slot and the pause are over,
makes sure of the token, and is granted unless a pause has come meanwhile. An answer with status 429 sets a pause.

Every step is the code between two `await` points; the clock moves between the steps.
-/

namespace AmoAnalytics.Amo

open Actors

/-! ## The limiter -/

/-- `looping` is between two passes of the loop, also asleep, and `refreshing` inside `ensureFreshToken`. A granted
slot knows the time of its start, and is `answered` once its request has its response. -/
inductive SlotPhase where
  | queued
  | looping
  | refreshing
  | granted (start : ℚ)
  | answered (start : ℚ)
  | rejected
  deriving DecidableEq

namespace SlotPhase

/-- The promise of the slot has settled. -/
def settled : SlotPhase → Bool
  | queued | looping | refreshing => false
  | granted _ | answered _ | rejected => true

/-- The start that the slot was granted. -/
def start : SlotPhase → Option ℚ
  | granted start | answered start => some start
  | queued | looping | refreshing | rejected => none

end SlotPhase

/-- A slot with the signal of its request. -/
structure RequestSlot where
  phase : SlotPhase := .queued
  aborted : Bool := false
  deriving DecidableEq

/-- The fields of the client; `pauses` collects the ends of all pauses. -/
structure Limiter where
  now : ℚ
  lastRequestAt : ℚ := 0
  pausedUntil : ℚ := 0
  slots : List RequestSlot := []
  pauses : List ℚ := []
  deriving DecidableEq

/-- The configured interval; `none` inside stands for a number that is not finite. -/
def minDelayMs (minRequestIntervalMs : Option (Option ℚ)) : ℚ :=
  ((minRequestIntervalMs.getD (some 160)).map (max 160)).getD 160

inductive SlotAction where
  | tick (elapsed : ℚ)
  | reserve
  | abort (i : ℕ)
  | loop (i : ℕ)
  | fresh (i : ℕ) (ok : Bool)
  | respond (i : ℕ) (retryAfter : Option ℚ)

/-- The slot whose body the action runs. -/
def SlotAction.runs : SlotAction → Option ℕ
  | .loop i | .fresh i _ => some i
  | .tick _ | .reserve | .abort _ | .respond _ _ => none

namespace Limiter

variable (s : Limiter) (i : ℕ)

/-- The slot before this one has settled. -/
def turn : Bool := i = 0 || s.slots[i - 1]?.any (·.phase.settled)

def setSlot (slot : RequestSlot) : Limiter := { s with slots := s.slots.set i slot }

/-- A pass of the loop up to its first `await`. -/
def loopSlot (minDelay : ℚ) (slot : RequestSlot) : RequestSlot :=
  if slot.aborted then { slot with phase := .rejected }
  else if 0 < max (s.lastRequestAt + minDelay) s.pausedUntil - s.now then { slot with phase := .looping }
  else { slot with phase := .refreshing }

/-- `lastRequestAt = Date.now()`, and the slot is granted. -/
def grant (slot : RequestSlot) : Limiter :=
  { s with slots := s.slots.set i { slot with phase := .granted s.now }, lastRequestAt := s.now }

/-- The rest of the pass, when `ensureFreshToken` has settled. -/
def freshSlot (slot : RequestSlot) (ok : Bool) : Limiter :=
  if slot.aborted || !ok then s.setSlot i { slot with phase := .rejected }
  else if s.pausedUntil ≤ s.now then s.grant i slot
  else s.setSlot i { slot with phase := .looping }

/-- The response of a granted request; a 429 pauses the client. -/
def answer (slot : RequestSlot) (start : ℚ) (retryAfter : Option ℚ) : Limiter :=
  let t := s.setSlot i { slot with phase := .answered start }
  match retryAfter with
  | none => t
  | some delay =>
    { t with pausedUntil := max s.pausedUntil (s.now + delay), pauses := s.pauses ++ [s.now + delay] }

def step (minDelay : ℚ) (s : Limiter) : SlotAction → Option Limiter
  | .tick elapsed => if 0 ≤ elapsed then some { s with now := s.now + elapsed } else none
  | .reserve => some { s with slots := s.slots ++ [{}] }
  | .abort i => s.slots[i]?.map fun slot => s.setSlot i { slot with aborted := true }
  | .loop i => s.slots[i]?.bind fun slot =>
    match slot.phase with
    | .queued => if s.turn i then some (s.setSlot i (s.loopSlot minDelay slot)) else none
    | .looping => some (s.setSlot i (s.loopSlot minDelay slot))
    | _ => none
  | .fresh i ok => s.slots[i]?.bind fun slot =>
    match slot.phase with
    | .refreshing => some (s.freshSlot i slot ok)
    | _ => none
  | .respond i retryAfter => s.slots[i]?.bind fun slot =>
    match slot.phase with
    | .granted start => some (s.answer i slot start retryAfter)
    | _ => none

/-- A new client. -/
def create (now : ℚ) : Limiter := { now }

end Limiter

/-! ## What a step does -/

/-- The steps of a slot: it waits on, passes its waits, is granted, is rejected or has its response. -/
inductive SlotEffect (minDelay : ℚ) (s : Limiter) : SlotAction → Limiter → Prop
  | tick (elapsed : ℚ) : 0 ≤ elapsed → SlotEffect minDelay s (.tick elapsed) { s with now := s.now + elapsed }
  | reserve : SlotEffect minDelay s .reserve { s with slots := s.slots ++ [{}] }
  | abort (i : ℕ) (slot : RequestSlot) : s.slots[i]? = some slot →
    SlotEffect minDelay s (.abort i) (s.setSlot i { slot with aborted := true })
  | wait (a : SlotAction) (i : ℕ) (slot : RequestSlot) : a.runs = some i → s.slots[i]? = some slot →
    slot.phase.settled = false → (slot.phase = .queued → s.turn i = true) →
    s.now < max (s.lastRequestAt + minDelay) s.pausedUntil →
    SlotEffect minDelay s a (s.setSlot i { slot with phase := .looping })
  | pass (i : ℕ) (slot : RequestSlot) : s.slots[i]? = some slot → slot.phase.settled = false →
    slot.phase ≠ .refreshing → (slot.phase = .queued → s.turn i = true) → s.lastRequestAt + minDelay ≤ s.now →
    s.pausedUntil ≤ s.now →
    SlotEffect minDelay s (.loop i) (s.setSlot i { slot with phase := .refreshing })
  | reject (a : SlotAction) (i : ℕ) (slot : RequestSlot) : a.runs = some i → s.slots[i]? = some slot →
    slot.phase.settled = false → (slot.phase = .queued → s.turn i = true) → slot.aborted = true ∨ a = .fresh i false →
    SlotEffect minDelay s a (s.setSlot i { slot with phase := .rejected })
  | grant (i : ℕ) (slot : RequestSlot) : s.slots[i]? = some slot → slot.phase = .refreshing →
    s.pausedUntil ≤ s.now → SlotEffect minDelay s (.fresh i true) (s.grant i slot)
  | answer (i : ℕ) (slot : RequestSlot) (start : ℚ) (retryAfter : Option ℚ) : s.slots[i]? = some slot →
    slot.phase = .granted start → SlotEffect minDelay s (.respond i retryAfter) (s.answer i slot start retryAfter)

namespace Limiter

variable {minDelay : ℚ} {s t : Limiter} {a : SlotAction}

theorem loopSlot_effect {i : ℕ} {slot : RequestSlot} (hslot : s.slots[i]? = some slot)
    (hpending : slot.phase.settled = false) (hlooping : slot.phase ≠ .refreshing)
    (hturn : slot.phase = .queued → s.turn i = true) :
    SlotEffect minDelay s (.loop i) (s.setSlot i (s.loopSlot minDelay slot)) := by
  unfold loopSlot
  split_ifs with haborted hdelay
  · exact .reject _ i slot rfl hslot hpending hturn (Or.inl haborted)
  · exact .wait _ i slot rfl hslot hpending hturn (sub_pos.1 hdelay)
  · have hover : max (s.lastRequestAt + minDelay) s.pausedUntil ≤ s.now := by
      rw [sub_pos] at hdelay
      exact not_lt.1 hdelay
    exact .pass i slot hslot hpending hlooping hturn ((le_max_left _ _).trans hover) ((le_max_right _ _).trans hover)

theorem freshSlot_effect {i : ℕ} {slot : RequestSlot} (hslot : s.slots[i]? = some slot)
    (hphase : slot.phase = .refreshing) (ok : Bool) :
    SlotEffect minDelay s (.fresh i ok) (s.freshSlot i slot ok) := by
  have hpending : slot.phase.settled = false := by rw [hphase]; rfl
  have hturn : slot.phase = .queued → s.turn i = true := by
    rw [hphase]
    nofun
  unfold freshSlot
  split_ifs with hfailed hpause
  · refine .reject _ i slot rfl hslot hpending hturn ?_
    cases ok with
    | false => exact Or.inr rfl
    | true => exact Or.inl (by simpa using hfailed)
  · cases ok with
    | false => exact absurd (by simp) hfailed
    | true => exact .grant i slot hslot hphase hpause
  · exact .wait _ i slot rfl hslot hpending hturn (lt_max_of_lt_right (not_le.1 hpause))

/-- Every step has one of the effects. -/
theorem step_effect (h : s.step minDelay a = some t) : SlotEffect minDelay s a t := by
  cases a with
  | tick elapsed =>
    simp only [step] at h
    split_ifs at h with hpos
    obtain rfl := Option.some.inj h
    exact .tick elapsed hpos
  | reserve =>
    obtain rfl := Option.some.inj h
    exact .reserve
  | abort i =>
    obtain ⟨slot, hslot, rfl⟩ := Option.map_eq_some_iff.1 h
    exact .abort i slot hslot
  | loop i =>
    obtain ⟨slot, hslot, h⟩ := Option.bind_eq_some_iff.1 h
    rcases hphase : slot.phase with _ | _ | _ | _ | _ | _ <;> simp only [hphase] at h
    · split_ifs at h with hturn
      obtain rfl := Option.some.inj h
      exact loopSlot_effect hslot (by rw [hphase]; rfl) (by rw [hphase]; nofun) fun _ => hturn
    · obtain rfl := Option.some.inj h
      exact loopSlot_effect hslot (by rw [hphase]; rfl) (by rw [hphase]; nofun) (by rw [hphase]; nofun)
    all_goals exact nomatch h
  | fresh i ok =>
    obtain ⟨slot, hslot, h⟩ := Option.bind_eq_some_iff.1 h
    rcases hphase : slot.phase with _ | _ | _ | _ | _ | _ <;> simp only [hphase] at h
    case refreshing =>
      obtain rfl := Option.some.inj h
      exact freshSlot_effect hslot hphase ok
    all_goals exact nomatch h
  | respond i retryAfter =>
    obtain ⟨slot, hslot, h⟩ := Option.bind_eq_some_iff.1 h
    rcases hphase : slot.phase with _ | _ | _ | start | _ | _ <;> simp only [hphase] at h
    case granted =>
      obtain rfl := Option.some.inj h
      exact .answer i slot start retryAfter hslot hphase
    all_goals exact nomatch h

/-! ## Phases across a step -/

/-- The phase of a slot. -/
def phase? (s : Limiter) (i : ℕ) : Option SlotPhase := s.slots[i]?.map (·.phase)

/-- The slot has its result. -/
def Settled (s : Limiter) (i : ℕ) : Prop := ∃ p, s.phase? i = some p ∧ p.settled = true

/-- The signal of the slot's request is aborted. -/
def Aborted (s : Limiter) (i : ℕ) : Prop := ∃ slot, s.slots[i]? = some slot ∧ slot.aborted = true

theorem phase?_of_slot {i : ℕ} {slot : RequestSlot} (h : s.slots[i]? = some slot) : s.phase? i = some slot.phase := by
  rw [phase?, h]
  rfl

theorem phase?_set {i : ℕ} {slot slot' : RequestSlot} (h : s.slots[i]? = some slot) (j : ℕ) :
    (s.setSlot i slot').phase? j = if j = i then some slot'.phase else s.phase? j := by
  unfold phase? setSlot
  by_cases hj : j = i
  · subst hj
    rw [if_pos rfl, getElem?_set_self_of_some h, Option.map_some]
  · rw [if_neg hj, List.getElem?_set_ne (Ne.symm hj)]

theorem phase?_reserve (j : ℕ) :
    ({ s with slots := s.slots ++ [{}] } : Limiter).phase? j =
      if j = s.slots.length then some .queued else s.phase? j := by
  unfold phase?
  by_cases hj : j = s.slots.length
  · subst hj
    rw [if_pos rfl, List.getElem?_concat_length, Option.map_some]
  · rw [if_neg hj]
    rcases Nat.lt_or_gt_of_ne hj with hlt | hgt
    · rw [List.getElem?_append_left hlt]
    · rw [List.getElem?_eq_none (by simp; omega), List.getElem?_eq_none hgt.le]

theorem phase?_abort {i : ℕ} {slot : RequestSlot} (h : s.slots[i]? = some slot) (j : ℕ) :
    (s.setSlot i { slot with aborted := true }).phase? j = s.phase? j := by
  rw [phase?_set h]
  split_ifs with hj
  · rw [hj, phase?_of_slot h]
  · rfl

theorem phase?_grant {i : ℕ} {slot : RequestSlot} (h : s.slots[i]? = some slot) (j : ℕ) :
    (s.grant i slot).phase? j = if j = i then some (.granted s.now) else s.phase? j :=
  phase?_set h j

theorem phase?_answer {i : ℕ} {slot : RequestSlot} {start : ℚ} {retryAfter : Option ℚ} (h : s.slots[i]? = some slot)
    (j : ℕ) : (s.answer i slot start retryAfter).phase? j =
      if j = i then some (.answered start) else s.phase? j := by
  cases retryAfter <;> exact phase?_set h j

/-- How the phase of one slot changes. -/
inductive PhaseMove (minDelay : ℚ) (s : Limiter) (a : SlotAction) (t : Limiter) (j : ℕ) :
    Option SlotPhase → SlotPhase → Prop
  | stays (p : SlotPhase) : PhaseMove minDelay s a t j (some p) p
  | reserves : PhaseMove minDelay s a t j none .queued
  | waits (q : SlotPhase) : q.settled = false → (q = .queued → s.turn j = true) →
    s.now < max (s.lastRequestAt + minDelay) s.pausedUntil → PhaseMove minDelay s a t j (some q) .looping
  | passes (q : SlotPhase) : q.settled = false → (q = .queued → s.turn j = true) →
    s.lastRequestAt + minDelay ≤ s.now → PhaseMove minDelay s a t j (some q) .refreshing
  | rejects (q : SlotPhase) : q.settled = false → (q = .queued → s.turn j = true) →
    s.Aborted j ∨ a = .fresh j false → PhaseMove minDelay s a t j (some q) .rejected
  | grants : s.pausedUntil ≤ s.now → t.lastRequestAt = s.now →
    PhaseMove minDelay s a t j (some .refreshing) (.granted s.now)
  | answers (start : ℚ) : PhaseMove minDelay s a t j (some (.granted start)) (.answered start)

/-- A step on the slot `i` leaves the other slots in their phases. -/
theorem phaseMove_set {i j : ℕ} {slot : RequestSlot} {p p' : SlotPhase} (hslot : s.slots[i]? = some slot)
    (hp : (if j = i then some p' else s.phase? j) = some p)
    (hmove : j = i → PhaseMove minDelay s a t j (some slot.phase) p') :
    PhaseMove minDelay s a t j (s.phase? j) p := by
  split_ifs at hp with hj
  · obtain rfl := Option.some.inj hp
    rw [hj, phase?_of_slot hslot]
    exact hj ▸ hmove hj
  · rw [hp]
    exact .stays p

theorem phase?_effect (h : SlotEffect minDelay s a t) {j : ℕ} {p : SlotPhase} (hp : t.phase? j = some p) :
    PhaseMove minDelay s a t j (s.phase? j) p := by
  cases h with
  | tick =>
    rw [show s.phase? j = some p from hp]
    exact .stays p
  | reserve =>
    rw [phase?_reserve] at hp
    split_ifs at hp with hj
    · have hnone : s.phase? j = none := by
        rw [phase?, List.getElem?_eq_none hj.ge]
        rfl
      obtain rfl := Option.some.inj hp
      rw [hnone]
      exact .reserves
    · rw [hp]
      exact .stays p
  | abort i slot hslot =>
    rw [phase?_abort hslot] at hp
    rw [hp]
    exact .stays p
  | wait _ i slot _ hslot hpending hturn hwait =>
    rw [phase?_set hslot] at hp
    exact phaseMove_set hslot hp fun hj => .waits _ hpending (hj ▸ hturn) hwait
  | pass i slot hslot hpending _ hturn hdue _ =>
    rw [phase?_set hslot] at hp
    exact phaseMove_set hslot hp fun hj => .passes _ hpending (hj ▸ hturn) hdue
  | reject _ i slot hruns hslot hpending hturn hwhy =>
    rw [phase?_set hslot] at hp
    refine phaseMove_set hslot hp fun hj => .rejects _ hpending (hj ▸ hturn) ?_
    exact hwhy.imp (fun haborted => ⟨slot, hj ▸ hslot, haborted⟩) fun hfailed => hj ▸ hfailed
  | grant i slot hslot hphase hpause =>
    rw [phase?_grant hslot] at hp
    refine phaseMove_set hslot hp fun hj => ?_
    rw [hphase]
    exact .grants hpause rfl
  | answer i slot start retryAfter hslot hphase =>
    rw [phase?_answer hslot] at hp
    refine phaseMove_set hslot hp fun hj => ?_
    rw [hphase]
    exact .answers start

/-- Only a grant writes the time of the last request. -/
theorem lastRequestAt_effect (h : SlotEffect minDelay s a t) : t.lastRequestAt = s.lastRequestAt ∨
    ∃ i, s.phase? i = some .refreshing ∧ t.phase? i = some (.granted s.now) ∧ t.lastRequestAt = s.now := by
  cases h with
  | grant i slot hslot hphase hpause =>
    refine Or.inr ⟨i, hphase ▸ phase?_of_slot hslot, ?_, rfl⟩
    exact (phase?_grant hslot i).trans (if_pos rfl)
  | answer i slot start retryAfter hslot hphase => cases retryAfter <;> exact Or.inl rfl
  | _ => exact Or.inl rfl

theorem now_effect (h : SlotEffect minDelay s a t) : s.now ≤ t.now := by
  cases h with
  | tick elapsed hpos => exact le_add_of_nonneg_right hpos
  | answer i slot start retryAfter hslot hphase => cases retryAfter <;> exact le_rfl
  | _ => exact le_rfl

theorem exists_phase {i : ℕ} : (∃ p, s.phase? i = some p) ↔ i < s.slots.length := by
  unfold phase?
  constructor
  · rintro ⟨p, hp⟩
    obtain ⟨slot, hslot, -⟩ := Option.map_eq_some_iff.1 hp
    exact (List.getElem?_eq_some_iff.1 hslot).1
  · intro hlt
    exact ⟨_, by rw [List.getElem?_eq_getElem hlt, Option.map_some]⟩

theorem length_effect (h : SlotEffect minDelay s a t) : s.slots.length ≤ t.slots.length := by
  cases h with
  | tick => exact le_rfl
  | reserve => simp
  | answer i slot start retryAfter => cases retryAfter <;> exact (List.length_set ..).ge
  | _ => exact (List.length_set ..).ge

/-- A slot that has its result keeps it. -/
theorem settled_effect (h : SlotEffect minDelay s a t) {i : ℕ} (hsettled : s.Settled i) : t.Settled i := by
  obtain ⟨p, hp, hdone⟩ := hsettled
  have hslot : ∃ q, t.phase? i = some q :=
    exists_phase.2 ((exists_phase.1 ⟨p, hp⟩).trans_le (length_effect h))
  obtain ⟨q, hq⟩ := hslot
  have hmove := phase?_effect h hq
  rw [hp] at hmove
  refine ⟨q, hq, ?_⟩
  cases hmove with
  | stays => exact hdone
  | answers => rfl
  | grants => exact nomatch hdone
  | waits _ hpending => exact absurd hdone (by rw [hpending]; nofun)
  | passes _ hpending => exact absurd hdone (by rw [hpending]; nofun)
  | rejects _ hpending => exact absurd hdone (by rw [hpending]; nofun)

/-! ## The invariant -/

/-- The slots start in their order; a slot that makes sure of its token has waited for the interval; and granted
starts are the interval apart. -/
structure Spaced (minDelay : ℚ) (s : Limiter) : Prop where
  ahead : ∀ {i j p}, i < j → s.phase? j = some p → p ≠ .queued → s.Settled i
  due : ∀ {i}, s.phase? i = some .refreshing → s.lastRequestAt + minDelay ≤ s.now
  last : ∀ {i p g}, s.phase? i = some p → p.start = some g → g ≤ s.lastRequestAt
  apart : ∀ {i j p q g g'}, i < j → s.phase? i = some p → s.phase? j = some q → p.start = some g →
    q.start = some g' → g + minDelay ≤ g'
  paused : ∀ e ∈ s.pauses, e ≤ s.pausedUntil

theorem spaced_create (minDelay now : ℚ) : Spaced minDelay (create now) where
  ahead _ h _ := nomatch h
  due h := nomatch h
  last h _ := nomatch h
  apart _ h _ _ _ := nomatch h
  paused _ h := nomatch h

/-- Whoever runs has all earlier slots settled. -/
theorem Spaced.settled_ahead (h : Spaced minDelay s) {i j : ℕ} {p : SlotPhase} (hij : i < j)
    (hp : s.phase? j = some p) (hturn : p = .queued → s.turn j = true) : s.Settled i := by
  by_cases hqueued : p = .queued
  swap
  · exact h.ahead hij hp hqueued
  have hbefore := hturn hqueued
  rw [turn, Bool.or_eq_true, decide_eq_true_eq, Option.any_eq_true] at hbefore
  obtain ⟨slot, hslot, hsettled⟩ := hbefore.resolve_left (by omega)
  have hprev := phase?_of_slot hslot
  rcases eq_or_lt_of_le (Nat.le_sub_one_of_lt hij) with rfl | hlt
  · exact ⟨_, hprev, hsettled⟩
  · refine h.ahead hlt hprev fun hq => ?_
    rw [hq] at hsettled
    exact nomatch hsettled

/-- A slot that is not waiting in the queue after a step was allowed to run before it. -/
theorem started_before (h : SlotEffect minDelay s a t) {j : ℕ} {p : SlotPhase} (hp : t.phase? j = some p)
    (hstarted : p ≠ .queued) : ∃ q, s.phase? j = some q ∧ (q = .queued → s.turn j = true) := by
  have hmove := phase?_effect h hp
  generalize hq : s.phase? j = before at hmove
  cases hmove with
  | stays => exact ⟨p, rfl, fun hqueued => absurd hqueued hstarted⟩
  | reserves => exact absurd rfl hstarted
  | waits q _ hturn => exact ⟨q, rfl, hturn⟩
  | passes q _ hturn => exact ⟨q, rfl, hturn⟩
  | rejects q _ hturn => exact ⟨q, rfl, hturn⟩
  | grants => exact ⟨_, rfl, nofun⟩
  | answers start => exact ⟨_, rfl, nofun⟩

/-- A start is old, or it is the present time of a slot that makes sure of its token. -/
theorem start_effect (h : SlotEffect minDelay s a t) {j : ℕ} {p : SlotPhase} {g : ℚ} (hp : t.phase? j = some p)
    (hg : p.start = some g) : (∃ q, s.phase? j = some q ∧ q.start = some g) ∨
      (s.phase? j = some .refreshing ∧ g = s.now ∧ s.pausedUntil ≤ s.now ∧ t.lastRequestAt = s.now) := by
  have hmove := phase?_effect h hp
  generalize hq : s.phase? j = before at hmove
  cases hmove with
  | stays => exact Or.inl ⟨p, rfl, hg⟩
  | reserves => exact nomatch hg
  | waits => exact nomatch hg
  | passes => exact nomatch hg
  | rejects => exact nomatch hg
  | grants hpause hlast => exact Or.inr ⟨rfl, (Option.some.inj hg).symm, hpause, hlast⟩
  | answers start => exact Or.inl ⟨_, rfl, hg⟩

theorem not_settled_of_phase {i : ℕ} {p : SlotPhase} (hp : s.phase? i = some p) (hpending : p.settled = false) :
    ¬ s.Settled i := by
  rintro ⟨q, hq, hsettled⟩
  obtain rfl := Option.some.inj (hp.symm.trans hq)
  exact absurd hsettled (by rw [hpending]; nofun)

/-- One slot at a time makes sure of its token. -/
theorem Spaced.refreshing_unique (h : Spaced minDelay s) {i j : ℕ} (hi : s.phase? i = some .refreshing)
    (hj : s.phase? j = some .refreshing) : i = j := by
  rcases Nat.lt_trichotomy i j with hlt | heq | hgt
  · exact absurd (h.ahead hlt hj nofun) (not_settled_of_phase hi rfl)
  · exact heq
  · exact absurd (h.ahead hgt hi nofun) (not_settled_of_phase hj rfl)

theorem paused_effect (h : SlotEffect minDelay s a t) (hpaused : ∀ e ∈ s.pauses, e ≤ s.pausedUntil) :
    s.pausedUntil ≤ t.pausedUntil ∧ ∀ e ∈ t.pauses, e ≤ t.pausedUntil := by
  cases h with
  | answer i slot start retryAfter =>
    cases retryAfter with
    | none => exact ⟨le_rfl, hpaused⟩
    | some delay =>
      refine ⟨le_max_left _ _, fun e he => ?_⟩
      rcases List.mem_append.1 he with he | he
      · exact le_max_of_le_left (hpaused e he)
      · rw [List.mem_singleton.1 he]
        exact le_max_right _ _
  | _ => exact ⟨le_rfl, hpaused⟩

/-- Every step keeps the invariant. -/
theorem Spaced.step (h : Spaced minDelay s) (hmin : 0 ≤ minDelay) (heffect : SlotEffect minDelay s a t) :
    Spaced minDelay t := by
  have hlast : s.lastRequestAt ≤ t.lastRequestAt := by
    rcases lastRequestAt_effect heffect with heq | ⟨i, hi, -, heq⟩
    · exact heq.ge
    · have := h.due hi
      rw [heq]
      linarith
  refine ⟨fun hij hp hstarted => ?_, fun {i} hi => ?_, fun hp hg => ?_, fun hij hp hq hg hg' => ?_,
    (paused_effect heffect h.paused).2⟩
  · obtain ⟨q, hq, hturn⟩ := started_before heffect hp hstarted
    exact settled_effect heffect (h.settled_ahead hij hq hturn)
  · have hnow := now_effect heffect
    have hsame : t.lastRequestAt = s.lastRequestAt := by
      refine (lastRequestAt_effect heffect).resolve_right ?_
      rintro ⟨k, hk, hgranted, -⟩
      obtain ⟨q, hq, hturn⟩ := started_before heffect hi nofun
      rcases Nat.lt_trichotomy i k with hlt | rfl | hgt
      · exact not_settled_of_phase hi rfl (settled_effect heffect (h.ahead hlt hk nofun))
      · exact nomatch hi.symm.trans hgranted
      · exact not_settled_of_phase hk rfl (h.settled_ahead hgt hq hturn)
    rw [hsame]
    have hmove := phase?_effect heffect hi
    generalize hbefore : s.phase? i = before at hmove
    cases hmove with
    | stays => exact (h.due hbefore).trans hnow
    | passes q _ _ hdue => exact hdue.trans hnow
  · rcases start_effect heffect hp hg with ⟨q, hq, hold⟩ | ⟨-, rfl, -, heq⟩
    · exact (h.last hq hold).trans hlast
    · exact heq.ge
  · rcases start_effect heffect hp hg with ⟨p', hp', hold⟩ | ⟨hi, rfl, -, -⟩
    · rcases start_effect heffect hq hg' with ⟨q', hq', hold'⟩ | ⟨hj, rfl, -, -⟩
      · exact h.apart hij hp' hq' hold hold'
      · have hbefore := h.last hp' hold
        have hdue := h.due hj
        linarith
    · obtain ⟨q', hq', hturn⟩ := started_before heffect hq (by rintro rfl; exact nomatch hg')
      exact absurd (h.settled_ahead hij hq' hturn) (not_settled_of_phase hi rfl)

theorem minDelayMs_nonneg (minRequestIntervalMs : Option (Option ℚ)) : 0 ≤ minDelayMs minRequestIntervalMs := by
  unfold minDelayMs
  rcases minRequestIntervalMs.getD (some 160) with _ | interval
  · norm_num
  · exact le_max_of_le_left (by norm_num)

/-- A finite interval that is configured is kept. -/
theorem le_minDelayMs (interval : ℚ) : interval ≤ minDelayMs (some (some interval)) := le_max_right _ _

theorem spaced_of_reachable (hmin : 0 ≤ minDelay) {now : ℚ}
    (h : Run.Reachable (step minDelay) (create now) s) : Spaced minDelay s := by
  refine h.invariant (spaced_create minDelay now) fun s a t hs _ hstep => ?_
  exact hs.step hmin (step_effect hstep)

end Limiter

end AmoAnalytics.Amo
