import AmoAnalytics.Lib.Run

/-!
# Workers on a shared store

Any number of workers act on one store. `act` is the program of a worker: from the store and its
local state an action gives the next store and the next local state, or is not enabled. A step of the
world is a step of one worker; the other local states stay as they are.

`World.invariant` is the rule of rely and guarantee. A store invariant `I` and a local invariant `L`
hold in every world reached if each step keeps them for the worker that takes it and changes the
store only in a way, `R`, that the local invariants of the others survive.
-/

namespace AmoAnalytics

/-- The store and the local state of each worker. -/
structure World (σ ℓ : Type*) where
  store : σ
  locals : ℕ → ℓ

namespace World

variable {σ ℓ α : Type*} {act : σ → ℓ → α → Option (σ × ℓ)} {w w' : World σ ℓ}

/-- Worker `a.1` takes the action `a.2`. -/
def step (act : σ → ℓ → α → Option (σ × ℓ)) (w : World σ ℓ) (a : ℕ × α) : Option (World σ ℓ) :=
  (act w.store (w.locals a.1) a.2).map fun p => ⟨p.1, Function.update w.locals a.1 p.2⟩

/-- A world where every worker is in the local state `l`. -/
def start (s : σ) (l : ℓ) : World σ ℓ := ⟨s, fun _ => l⟩

theorem step_eq_some {i : ℕ} {a : α} : step act w (i, a) = some w' ↔
    ∃ s l, act w.store (w.locals i) a = some (s, l) ∧ w' = ⟨s, Function.update w.locals i l⟩ := by
  simp [step, eq_comm]

/-- What holds of the local state of the acting worker after the step and of all others before it,
holds of all after it. -/
theorem forall_update {P : ℓ → Prop} {locals : ℕ → ℓ} {i : ℕ} {l : ℓ} (hl : P l)
    (h : ∀ j, j ≠ i → P (locals j)) (j : ℕ) : P (Function.update locals i l j) := by
  by_cases hj : j = i
  · subst hj
    simpa using hl
  · simpa [hj] using h j hj

/-- What holds of some local state after the step holds of the new one or of that of another worker. -/
theorem exists_update {P : ℓ → Prop} {locals : ℕ → ℓ} {i : ℕ} {l : ℓ} :
    (∃ j, P (Function.update locals i l j)) ↔ P l ∨ ∃ j, j ≠ i ∧ P (locals j) := by
  constructor
  · rintro ⟨j, hj⟩
    by_cases hji : j = i
    · subst hji
      exact Or.inl (by simpa using hj)
    · exact Or.inr ⟨j, hji, by simpa [hji] using hj⟩
  · rintro (hl | ⟨j, hji, hj⟩)
    · exact ⟨i, by simpa using hl⟩
    · exact ⟨j, by simpa [hji] using hj⟩

/-- The worker `i` or another one. -/
theorem exists_iff {P : ℓ → Prop} {locals : ℕ → ℓ} (i : ℕ) :
    (∃ j, P (locals j)) ↔ P (locals i) ∨ ∃ j, j ≠ i ∧ P (locals j) := by
  rw [← exists_update, Function.update_eq_self]

/-- `forall_update` for properties of two different workers. -/
theorem forall_update₂ {P : ℓ → ℓ → Prop} (hsymm : ∀ a b, P a b → P b a) {locals : ℕ → ℓ} {i : ℕ} {l : ℓ}
    (hl : ∀ j, j ≠ i → P l (locals j)) (h : ∀ j k, j ≠ k → P (locals j) (locals k)) (j k : ℕ)
    (hjk : j ≠ k) : P (Function.update locals i l j) (Function.update locals i l k) := by
  by_cases hj : j = i
  · subst hj
    rw [Function.update_self, Function.update_of_ne hjk.symm]
    exact hl k hjk.symm
  · rw [Function.update_of_ne hj]
    by_cases hk : k = i
    · subst hk
      rw [Function.update_self]
      exact hsymm _ _ (hl j hj)
    · rw [Function.update_of_ne hk]
      exact h j k hjk

/-- The rule of rely and guarantee, for runs whose steps all meet a condition on the acting worker. -/
theorem guarded_invariant {g : σ → ℓ → α → Prop} {I : σ → Prop} {L : σ → ℓ → Prop} {R : σ → σ → Prop}
    (h : Run.ReachableVia (step act) (fun w a => g w.store (w.locals a.1) a.2) w w')
    (h₀ : I w.store ∧ ∀ i, L w.store (w.locals i))
    (hstep : ∀ s l a s' l', I s → L s l → g s l a → act s l a = some (s', l') → I s' ∧ L s' l' ∧ R s s')
    (hrely : ∀ s s' l, I s → L s l → R s s' → L s' l) :
    I w'.store ∧ ∀ i, L w'.store (w'.locals i) := by
  refine h.invariant (I := fun w => I w.store ∧ ∀ i, L w.store (w.locals i)) h₀ ?_
  rintro u ⟨i, a⟩ v ⟨hI, hL⟩ hg huv
  obtain ⟨s, l, hact, rfl⟩ := step_eq_some.1 huv
  obtain ⟨hI', hl, hR⟩ := hstep _ _ _ _ _ hI (hL i) hg hact
  exact ⟨hI', forall_update hl fun j _ => hrely _ _ _ hI (hL j) hR⟩

/-- A relation between stores that every such step keeps holds between the ends of the run. -/
theorem guarded_stable {g : σ → ℓ → α → Prop} {I : σ → Prop} {L : σ → ℓ → Prop} {R : σ → σ → Prop}
    (h : Run.ReachableVia (step act) (fun w a => g w.store (w.locals a.1) a.2) w w')
    (h₀ : I w.store ∧ ∀ i, L w.store (w.locals i)) (hrefl : ∀ s, R s s)
    (htrans : ∀ s t u, R s t → R t u → R s u)
    (hstep : ∀ s l a s' l', I s → L s l → g s l a → act s l a = some (s', l') → I s' ∧ L s' l' ∧ R s s')
    (hrely : ∀ s s' l, I s → L s l → R s s' → L s' l) : R w.store w'.store := by
  refine h.stable (I := fun w => I w.store ∧ ∀ i, L w.store (w.locals i))
    (R := fun u v => R u.store v.store) h₀ (fun u _ => hrefl u.store) (fun _ _ _ => htrans _ _ _) ?_
  rintro u ⟨i, a⟩ v ⟨hI, hL⟩ hg huv
  obtain ⟨s, l, hact, rfl⟩ := step_eq_some.1 huv
  obtain ⟨hI', hl, hR⟩ := hstep _ _ _ _ _ hI (hL i) hg hact
  exact ⟨⟨hI', forall_update hl fun j _ => hrely _ _ _ hI (hL j) hR⟩, hR⟩

/-- The rule of rely and guarantee. -/
theorem invariant {G : World σ ℓ → ℕ × α → Prop} {I : σ → Prop} {L : σ → ℓ → Prop} {R : σ → σ → Prop}
    (h : Run.ReachableVia (step act) G w w') (h₀ : I w.store ∧ ∀ i, L w.store (w.locals i))
    (hstep : ∀ s l a s' l', I s → L s l → act s l a = some (s', l') → I s' ∧ L s' l' ∧ R s s')
    (hrely : ∀ s s' l, I s → L s l → R s s' → L s' l) :
    I w'.store ∧ ∀ i, L w'.store (w'.locals i) :=
  guarded_invariant (g := fun _ _ _ => True) h.reachable h₀
    (fun _ _ _ _ _ hI hL _ hact => hstep _ _ _ _ _ hI hL hact) hrely

/-- A worker that takes no step of a run keeps its local state. -/
theorem locals_of_run {j : ℕ} : ∀ {as : List (ℕ × α)} {w : World σ ℓ}, Run.run (step act) w as = some w' →
    (∀ a ∈ as, a.1 ≠ j) → w'.locals j = w.locals j
  | [], _, h, _ => by
    cases h
    rfl
  | (i, a) :: as, w, h, hj => by
    obtain ⟨u, hu, hrun⟩ := Option.bind_eq_some_iff.1 h
    obtain ⟨s, l, -, rfl⟩ := step_eq_some.1 hu
    rw [locals_of_run hrun fun b hb => hj b (List.mem_cons_of_mem _ hb)]
    exact Function.update_of_ne (hj (i, a) List.mem_cons_self).symm l w.locals

end World

end AmoAnalytics
