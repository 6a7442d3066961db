import AmoAnalytics.Lib.Tiling

/-!
# The windows of the events

`syncEvents` of `amo-sync.service.ts` asks for the events of a period day by day. A window with too many events is
refused and asked for again in two halves, down to one second. What the source answers may depend on everything that
was asked before.
-/

namespace AmoAnalytics.Amo

open Tiling

structure EventWindow where
  windowFrom : ℤ
  windowTo : ℤ
  deriving DecidableEq

namespace EventWindow

def bounds (w : EventWindow) : ℤ × ℤ := (w.windowFrom, w.windowTo)

/-- The middle of a window, rounded down. -/
def midpoint (w : EventWindow) : ℤ := (w.windowFrom + w.windowTo) / 2

end EventWindow

/-! ## Windows of a day -/

def windowSeconds : ℤ := 24 * 60 * 60

/-- The loop of `eventTimeWindows`. -/
def windowsFrom (windowFrom requestedTo : ℤ) : List EventWindow :=
  if windowFrom ≤ requestedTo then
    ⟨windowFrom, min requestedTo (windowFrom + windowSeconds - 1)⟩ ::
      windowsFrom (windowFrom + windowSeconds) requestedTo
  else []
termination_by (requestedTo + 1 - windowFrom).toNat
decreasing_by
  simp only [windowSeconds]
  omega

/-- `eventTimeWindows`. -/
def eventTimeWindows (windowFrom requestedTo : ℤ) : List EventWindow :=
  if requestedTo < windowFrom then [⟨windowFrom, requestedTo⟩] else windowsFrom windowFrom requestedTo

/-! ## Bisection -/

/-- How a walk over the pages of a window ends: with all events stored, with `amoCRM API 408 … too many data`, or with
another error. -/
inductive PageAnswer
  | stored
  | tooManyData
  | failed
  deriving DecidableEq

/-- The windows asked for so far, with their answers. -/
abbrev Requests := List (EventWindow × PageAnswer)

/-- The windows whose events are stored. -/
def Requests.fetched (requests : Requests) : List EventWindow :=
  (requests.filter fun p => p.2 = .stored).map (·.1)

/-- The source, which has seen all requests. -/
abbrev EventSource := Requests → EventWindow → PageAnswer

/-- All requests, and whether the call throws. -/
structure Ingested where
  requests : Requests
  throws : Bool

variable (source : EventSource)

/-- `ingestWindow`: a refused window of more than one second is asked for in two halves. -/
def ingestWindow (w : EventWindow) (requests : Requests) : Ingested :=
  let answer := source requests w
  let requests := requests ++ [(w, answer)]
  match answer with
  | .stored => ⟨requests, false⟩
  | .failed => ⟨requests, true⟩
  | .tooManyData =>
    if w.windowTo ≤ w.windowFrom then ⟨requests, true⟩
    else
      let first := ingestWindow ⟨w.windowFrom, w.midpoint⟩ requests
      if first.throws then first else ingestWindow ⟨w.midpoint + 1, w.windowTo⟩ first.requests
termination_by (w.windowTo - w.windowFrom).toNat
decreasing_by
  all_goals
    simp only [EventWindow.midpoint]
    omega

/-- `ingest`: the windows in order, up to the first error. -/
def ingestWindows : List EventWindow → Requests → Ingested
  | [], requests => ⟨requests, false⟩
  | w :: ws, requests =>
    let first := ingestWindow source w requests
    if first.throws then first else ingestWindows ws first.requests

/-- The events of a period. -/
def ingest (windowFrom requestedTo : ℤ) : Ingested :=
  ingestWindows source (eventTimeWindows windowFrom requestedTo) []

/-! ## What is stored -/

/-- The answer ends the run: an error, or a window of one second that is refused. -/
def Fatal (p : EventWindow × PageAnswer) : Prop :=
  p.2 = .failed ∨ p.2 = .tooManyData ∧ p.1.windowTo ≤ p.1.windowFrom

variable {source} {a b c : ℤ} {w : EventWindow} {requests : Requests}

@[simp] theorem Requests.fetched_append (requests requests' : Requests) :
    Requests.fetched (requests ++ requests') = requests.fetched ++ requests'.fetched := by
  simp [Requests.fetched]

/-- The requests for a range: the stored windows tile it from its start, all of it unless the call throws, and it
throws exactly at an answer that ends the run. The number of requests stays `k` below twice the number of seconds. -/
def Covers (k a b : ℤ) (requests : Requests) (r : Ingested) : Prop :=
  ∃ new : Requests, r.requests = requests ++ new ∧ new.length + k ≤ 2 * (b - a) ∧
    (r.throws = true ↔ ∃ p ∈ new, Fatal p) ∧
    ∃ c ≤ b, Tiles a (new.fetched.map (·.bounds)) c ∧ (r.throws = false → c = b)

/-- Two ranges, one after the other. -/
theorem Covers.then {k l : ℤ} {first rest : Ingested} (h : Covers k a b requests first)
    (h' : Covers l b c first.requests rest) (hl : l ≤ 2 * (c - b)) (hle : b ≤ c) :
    Covers (k + l) a c requests (if first.throws then first else rest) := by
  obtain ⟨new, hnew, hlength, hthrows, d, hd, htiles, hdone⟩ := h
  split_ifs with hfirst
  · refine ⟨new, hnew, by omega, hthrows, d, hd.trans hle, htiles, fun hok => ?_⟩
    rw [hfirst] at hok
    cases hok
  · obtain ⟨new', hnew', hlength', hthrows', e, he, htiles', hdone'⟩ := h'
    obtain rfl := hdone (eq_false_of_ne_true hfirst)
    refine ⟨new ++ new', ?_, ?_, ?_, e, he, ?_, hdone'⟩
    · rw [hnew', hnew, List.append_assoc]
    · rw [List.length_append]
      push_cast
      omega
    · rw [hthrows']
      constructor
      · rintro ⟨p, hp, hfatal⟩
        exact ⟨p, List.mem_append_right _ hp, hfatal⟩
      · rintro ⟨p, hp, hfatal⟩
        rcases List.mem_append.1 hp with hp | hp
        · exact absurd (hthrows.2 ⟨p, hp, hfatal⟩) hfirst
        · exact ⟨p, hp, hfatal⟩
    · rw [Requests.fetched_append, List.map_append]
      exact htiles.append htiles'

/-- A request that is refused and asked for again. -/
theorem Covers.refused {k : ℤ} {p : EventWindow × PageAnswer} {r : Ingested} (h : Covers k a b (requests ++ [p]) r)
    (hfatal : ¬ Fatal p) (hstored : p.2 ≠ .stored) : Covers (k - 1) a b requests r := by
  obtain ⟨new, hnew, hlength, hthrows, c, hc, htiles, hdone⟩ := h
  refine ⟨p :: new, ?_, ?_, ?_, c, hc, ?_, hdone⟩
  · rw [hnew, List.append_assoc, List.singleton_append]
  · rw [List.length_cons]
    push_cast
    omega
  · rw [hthrows, List.exists_mem_cons_iff]
    exact ⟨Or.inr, fun h => h.resolve_left hfatal⟩
  · have hsame : Requests.fetched (p :: new) = new.fetched := by
      simp [Requests.fetched, hstored]
    rwa [hsame]

/-- A window is stored in pieces that tile it, or the call throws. -/
theorem ingestWindow_covers (w : EventWindow) (requests : Requests) (hw : w.windowFrom ≤ w.windowTo) :
    Covers 1 w.windowFrom (w.windowTo + 1) requests (ingestWindow source w requests) := by
  unfold ingestWindow
  dsimp only
  split
  · rename_i hanswer
    rw [hanswer]
    exact ⟨[(w, .stored)], rfl, by simp; omega, by simp [Fatal], w.windowTo + 1, le_rfl, ⟨rfl, hw, rfl⟩, fun _ => rfl⟩
  · rename_i hanswer
    rw [hanswer]
    exact ⟨[(w, .failed)], rfl, by simp; omega, by simp [Fatal], w.windowFrom, by omega, rfl, nofun⟩
  · rename_i hanswer
    rw [hanswer]
    by_cases hsecond : w.windowTo ≤ w.windowFrom
    · rw [if_pos hsecond]
      refine ⟨[(w, .tooManyData)], rfl, by simp; omega, by simp [Fatal, hsecond], w.windowFrom, by omega, rfl, nofun⟩
    · -- Neither half is empty, so both are shorter than the window.
      rw [if_neg hsecond]
      have hmid : w.windowFrom ≤ w.midpoint ∧ w.midpoint < w.windowTo := by
        unfold EventWindow.midpoint
        omega
      have hfirst := ingestWindow_covers ⟨w.windowFrom, w.midpoint⟩ (requests ++ [(w, .tooManyData)]) hmid.1
      have hrest := ingestWindow_covers ⟨w.midpoint + 1, w.windowTo⟩
        (ingestWindow source ⟨w.windowFrom, w.midpoint⟩ (requests ++ [(w, .tooManyData)])).requests
        (by dsimp only; omega)
      have hboth := hfirst.then hrest (by dsimp only; omega) (by dsimp only; omega)
      exact hboth.refused (by simp [Fatal, not_le.1 hsecond]) nofun
termination_by (w.windowTo - w.windowFrom).toNat
decreasing_by
  all_goals
    simp only [EventWindow.midpoint]
    omega

/-- Windows that tile a range are stored in pieces that tile it, or the call throws. -/
theorem ingestWindows_covers {ws : List EventWindow} (requests : Requests) (h : Tiles a (ws.map (·.bounds)) b) :
    Covers 0 a b requests (ingestWindows source ws requests) := by
  induction ws generalizing a requests with
  | nil =>
    obtain rfl : a = b := h
    exact ⟨[], by simp [ingestWindows], by simp, by simp [ingestWindows], a, le_rfl, rfl, fun _ => rfl⟩
  | cons w ws ih =>
    obtain ⟨rfl, hw, hrest⟩ := h
    have hle : w.windowTo + 1 ≤ b := hrest.le
    have hfirst : Covers 1 w.windowFrom _ requests (ingestWindow source w requests) :=
      ingestWindow_covers w requests hw
    obtain ⟨new, hnew, hlength, hthrows⟩ := hfirst.then (ih _ hrest) (by omega) hle
    refine ⟨new, hnew, ?_, hthrows⟩
    show (new.length : ℤ) + 0 ≤ 2 * (b - w.windowFrom)
    omega

theorem windowsFrom_tiles {windowFrom requestedTo : ℤ} (h : windowFrom ≤ requestedTo) :
    Tiles windowFrom ((windowsFrom windowFrom requestedTo).map (·.bounds)) (requestedTo + 1) := by
  rw [windowsFrom, if_pos h, List.map_cons]
  have hseconds : windowSeconds = 86400 := rfl
  refine ⟨rfl, by simp only [EventWindow.bounds]; omega, ?_⟩
  by_cases hlast : windowFrom + windowSeconds ≤ requestedTo
  · have hend : min requestedTo (windowFrom + windowSeconds - 1) + 1 = windowFrom + windowSeconds := by omega
    show Tiles (min requestedTo (windowFrom + windowSeconds - 1) + 1) _ _
    rw [hend]
    exact windowsFrom_tiles hlast
  · have hend : min requestedTo (windowFrom + windowSeconds - 1) = requestedTo := by omega
    rw [windowsFrom, if_neg hlast]
    show min requestedTo (windowFrom + windowSeconds - 1) + 1 = requestedTo + 1
    rw [hend]
termination_by (requestedTo + 1 - windowFrom).toNat
decreasing_by
  simp only [windowSeconds] at *
  omega

/-- The windows of a day tile the period. -/
theorem eventTimeWindows_tiles {windowFrom requestedTo : ℤ} (h : windowFrom ≤ requestedTo) :
    Tiles windowFrom ((eventTimeWindows windowFrom requestedTo).map (·.bounds)) (requestedTo + 1) := by
  rw [eventTimeWindows, if_neg h.not_gt]
  exact windowsFrom_tiles h

/-- **The stored windows partition the period.** Whatever the source refuses, the call ends after at most two requests
for each second. It throws exactly when a request fails or a window of one second is refused; otherwise the windows
whose events are stored do not meet and cover exactly the seconds of the period. -/
theorem event_windows_partition {windowFrom requestedTo : ℤ} (h : windowFrom ≤ requestedTo) (source : EventSource) :
    let r := ingest source windowFrom requestedTo
    (r.requests.length : ℤ) ≤ 2 * (requestedTo - windowFrom + 1) ∧
      (r.throws = true ↔ ∃ p ∈ r.requests, Fatal p) ∧
      (r.requests.fetched.Pairwise fun v w => v.windowTo < w.windowFrom) ∧
      (r.throws = false → ∀ second,
        (∃ w ∈ r.requests.fetched, w.windowFrom ≤ second ∧ second ≤ w.windowTo) ↔
          windowFrom ≤ second ∧ second ≤ requestedTo) := by
  intro r
  obtain ⟨new, hnew, hlength, hthrows, c, -, htiles, hdone⟩ :=
    (ingestWindows_covers [] (eventTimeWindows_tiles h) : Covers 0 _ _ [] r)
  have hrequests : r.requests = new := hnew
  rw [hrequests]
  refine ⟨by omega, hthrows, ?_, fun hok second => ?_⟩
  · exact List.pairwise_map.1 htiles.disjoint
  · rw [hdone hok] at htiles
    have hcovers := htiles.covers (x := second)
    simp only [List.mem_map, exists_exists_and_eq_and] at hcovers
    rw [← Int.lt_add_one_iff (a := second)]
    exact hcovers

/-- Windows of two seconds are refused. -/
theorem event_windows_partition_sample :
    (ingest (fun _ w => if w.windowFrom < w.windowTo then .tooManyData else .stored) 100 102).requests.fetched =
        [⟨100, 100⟩, ⟨101, 101⟩, ⟨102, 102⟩] ∧
      ∀ second, (∃ w ∈ (ingest (fun _ w => if w.windowFrom < w.windowTo then .tooManyData else .stored)
        100 102).requests.fetched, w.windowFrom ≤ second ∧ second ≤ w.windowTo) ↔ 100 ≤ second ∧ second ≤ 102 := by
  have hfetched : (ingest (fun _ w => if w.windowFrom < w.windowTo then .tooManyData else .stored)
      100 102).requests.fetched = [⟨100, 100⟩, ⟨101, 101⟩, ⟨102, 102⟩] := by
    simp [ingest, eventTimeWindows, windowsFrom, windowSeconds, ingestWindows, ingestWindow, EventWindow.midpoint,
      Requests.fetched]
  refine ⟨hfetched, (event_windows_partition (by decide : (100 : ℤ) ≤ 102) _).2.2.2 ?_⟩
  simp [ingest, eventTimeWindows, windowsFrom, windowSeconds, ingestWindows, ingestWindow, EventWindow.midpoint]

end AmoAnalytics.Amo
