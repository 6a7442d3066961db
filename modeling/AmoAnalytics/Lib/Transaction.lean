import Mathlib

/-!
# Transactions

A transaction over a state `σ` is a function to `Except ε`: it fails as a whole or gives the next
state. `bind_ok` and `bind_error` take a sequence of statements apart; `commit` keeps the old state
when the transaction fails, so a property that every success preserves is preserved.
-/

namespace AmoAnalytics.Transaction

universe u

variable {ε σ : Type*} {α β : Type u}

theorem bind_ok {x : Except ε α} {f : α → Except ε β} {b : β} :
    x >>= f = .ok b ↔ ∃ a, x = .ok a ∧ f a = .ok b := by
  cases x <;> simp [bind, Except.bind]

theorem bind_error {x : Except ε α} {f : α → Except ε β} {e : ε} :
    x >>= f = .error e ↔ x = .error e ∨ ∃ a, x = .ok a ∧ f a = .error e := by
  cases x <;> simp [bind, Except.bind]

theorem map_ok {x : Except ε α} {f : α → β} {b : β} :
    x.map f = .ok b ↔ ∃ a, x = .ok a ∧ f a = b := by
  cases x <;> simp [Except.map]

theorem eq_ok_of_isOk {x : Except ε α} (h : x.isOk = true) (d : α) : x = .ok (x.toOption.getD d) := by
  cases x with
  | error e => exact nomatch h
  | ok a => rfl

/-- The state after a transaction: a failed one is rolled back. -/
def commit (s : σ) : Except ε σ → σ
  | .ok s => s
  | .error _ => s

/-- A property that holds before and after every successful transaction holds after `commit`. -/
theorem commit_induction {P : σ → Prop} {s : σ} {x : Except ε σ} (h₀ : P s)
    (h : ∀ t, x = .ok t → P t) : P (commit s x) := by
  cases x with
  | error e => exact h₀
  | ok t => exact h t rfl

end AmoAnalytics.Transaction
