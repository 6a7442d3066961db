import Mathlib

/-!
# Runs of a step function

A system is a partial step function `step : σ → α → Option σ`: `none` says that the action is not
enabled. `run` executes a list of actions, `Along G` says that every action of the run meets the
guard `G` in the state it starts from, and `ReachableVia G` is reachability by such runs. Each
induction over runs is made once, here: `ReachableVia.invariant` for properties of the states
reached, `ReachableVia.stable` for properties that relate an earlier state to a later one.
-/

namespace AmoAnalytics.Run

variable {σ α : Type*} {step : σ → α → Option σ} {G H : σ → α → Prop} {s t u : σ}

/-- Execute the actions in order. -/
def run (step : σ → α → Option σ) : σ → List α → Option σ
  | s, [] => some s
  | s, a :: as => (step s a).bind (run step · as)

@[simp] theorem run_nil (s : σ) : run step s [] = some s := rfl

@[simp] theorem run_cons (s : σ) (a : α) (as : List α) :
    run step s (a :: as) = (step s a).bind (run step · as) := rfl

theorem run_append (as bs : List α) (s : σ) :
    run step s (as ++ bs) = (run step s as).bind (run step · bs) := by
  induction as generalizing s with
  | nil => rfl
  | cons a as ih =>
    rw [List.cons_append, run_cons, run_cons, Option.bind_assoc]
    congr 1
    funext s'
    exact ih s'

/-- Every action of the run meets the guard in the state before it. -/
def Along (step : σ → α → Option σ) (G : σ → α → Prop) : σ → List α → Prop
  | _, [] => True
  | s, a :: as => G s a ∧ ∀ t, step s a = some t → Along step G t as

theorem Along.mono (hGH : ∀ s a, G s a → H s a) :
    ∀ {s : σ} {as : List α}, Along step G s as → Along step H s as
  | _, [], _ => trivial
  | s, a :: _, h => ⟨hGH s a h.1, fun t ht => Along.mono hGH (h.2 t ht)⟩

theorem along_true : ∀ (s : σ) (as : List α), Along step (fun _ _ => True) s as
  | _, [] => trivial
  | _, _ :: as => ⟨trivial, fun t _ => along_true t as⟩

theorem Along.append {as bs : List α} :
    ∀ {s : σ}, Along step G s as → run step s as = some t → Along step G t bs →
      Along step G s (as ++ bs) := by
  induction as with
  | nil =>
    intro s _ hrun hbs
    obtain rfl : s = t := by simpa using hrun
    exact hbs
  | cons a as ih =>
    intro s has hrun hbs
    refine ⟨has.1, fun s' hs' => ih (has.2 s' hs') ?_ hbs⟩
    simpa [hs'] using hrun

/-- `t` is reached from `s` by a run whose steps all meet the guard. -/
def ReachableVia (step : σ → α → Option σ) (G : σ → α → Prop) (s t : σ) : Prop :=
  ∃ as, Along step G s as ∧ run step s as = some t

/-- Reachability without a guard. -/
abbrev Reachable (step : σ → α → Option σ) : σ → σ → Prop :=
  ReachableVia step fun _ _ => True

theorem reachable_of_run {as : List α} (h : run step s as = some t) : Reachable step s t :=
  ⟨as, along_true s as, h⟩

namespace ReachableVia

theorem refl (s : σ) : ReachableVia step G s s := ⟨[], trivial, rfl⟩

theorem trans (h₁ : ReachableVia step G s t) (h₂ : ReachableVia step G t u) :
    ReachableVia step G s u := by
  obtain ⟨as, has, hs⟩ := h₁
  obtain ⟨bs, hbs, ht⟩ := h₂
  exact ⟨as ++ bs, has.append hs hbs, by rw [run_append, hs]; exact ht⟩

theorem single {a : α} (hG : G s a) (h : step s a = some t) : ReachableVia step G s t :=
  ⟨[a], ⟨hG, fun _ _ => trivial⟩, by simpa using h⟩

theorem mono (hGH : ∀ s a, G s a → H s a) (h : ReachableVia step G s t) :
    ReachableVia step H s t := by
  obtain ⟨as, has, hs⟩ := h
  exact ⟨as, has.mono hGH, hs⟩

theorem reachable (h : ReachableVia step G s t) : Reachable step s t :=
  h.mono fun _ _ _ => trivial

/-- The invariant rule: a predicate that holds at the start and that every guarded step preserves
holds in every state reached. -/
theorem invariant {I : σ → Prop} (h : ReachableVia step G s t) (h₀ : I s)
    (hstep : ∀ s a t, I s → G s a → step s a = some t → I t) : I t := by
  obtain ⟨as, has, hs⟩ := h
  induction as generalizing s with
  | nil =>
    obtain rfl : s = t := by simpa using hs
    exact h₀
  | cons a as ih =>
    rw [run_cons, Option.bind_eq_some_iff] at hs
    obtain ⟨s', hs', hrun⟩ := hs
    exact ih (hstep s a s' h₀ has.1 hs') (has.2 s' hs') hrun

/-- The stability rule: a relation, reflexive on invariant states and transitive, that holds across
every guarded step from an invariant state holds between the two ends of every run. -/
theorem stable {I : σ → Prop} {R : σ → σ → Prop} (h : ReachableVia step G s t) (h₀ : I s)
    (hrefl : ∀ s, I s → R s s) (htrans : ∀ s t u, R s t → R t u → R s u)
    (hstep : ∀ s a t, I s → G s a → step s a = some t → I t ∧ R s t) : R s t := by
  have key : I t ∧ R s t := by
    refine h.invariant (I := fun u => I u ∧ R s u) ⟨h₀, hrefl s h₀⟩ ?_
    intro u a v hu hG huv
    obtain ⟨hv, hR⟩ := hstep u a v hu.1 hG huv
    exact ⟨hv, htrans _ _ _ hu.2 hR⟩
  exact key.2

/-- A predicate that the run makes true is made true by one of its steps. -/
theorem exists_step {P : σ → Prop} (h : ReachableVia step G s t) (hs : ¬ P s) (ht : P t) :
    ∃ u a v, ReachableVia step G s u ∧ G u a ∧ step u a = some v ∧ ReachableVia step G v t ∧ ¬ P u ∧ P v := by
  obtain ⟨as, has, hrun⟩ := h
  induction as generalizing s with
  | nil =>
    obtain rfl : s = t := by simpa using hrun
    exact absurd ht hs
  | cons a as ih =>
    rw [run_cons, Option.bind_eq_some_iff] at hrun
    obtain ⟨s', hs', hrun⟩ := hrun
    by_cases hP : P s'
    · exact ⟨s, a, s', .refl s, has.1, hs', ⟨as, has.2 s' hs', hrun⟩, hs, hP⟩
    · obtain ⟨u, b, v, hu, hG, huv, hv, hPu, hPv⟩ := ih hP (has.2 s' hs') hrun
      exact ⟨u, b, v, (ReachableVia.single has.1 hs').trans hu, hG, huv, hv, hPu, hPv⟩

end ReachableVia

/-! ## Concrete runs -/

/-- Execute the actions in order, each if it passes the check. -/
def runIf (check : σ → α → Bool) (step : σ → α → Option σ) : σ → List α → Option σ
  | s, [] => some s
  | s, a :: as => if check s a then (step s a).bind (runIf check step · as) else none

/-- A run whose actions pass a check that implies the guard reaches a state with what it ends in. -/
theorem exists_of_runIf {check : σ → α → Bool} (hcheck : ∀ s a, check s a = true → G s a) {p : σ → Bool} :
    ∀ {as : List α} {s : σ}, (runIf check step s as).any p = true →
      ∃ t, ReachableVia step G s t ∧ p t = true
  | [], s, h => ⟨s, .refl s, h⟩
  | a :: as, s, h => by
    rw [runIf] at h
    split_ifs at h with ha
    · cases hstep : step s a with
      | none =>
        rw [hstep] at h
        exact nomatch h
      | some u =>
        rw [hstep] at h
        obtain ⟨t, ht, hp⟩ := exists_of_runIf hcheck h
        exact ⟨t, (ReachableVia.single (hcheck s a ha) hstep).trans ht, hp⟩
    · exact nomatch h

/-- A run reaches a state with what it ends in. -/
theorem exists_of_run {p : σ → Bool} {as : List α} (h : (run step s as).any p = true) :
    ∃ t, Reachable step s t ∧ p t = true := by
  obtain ⟨t, ht, hp⟩ := (Option.any_eq_true _ _).1 h
  exact ⟨t, reachable_of_run ht, hp⟩

end AmoAnalytics.Run
