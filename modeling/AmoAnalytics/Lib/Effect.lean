import Mathlib

/-!
# Runs that may fail

A computation over a state that ends with a value or a fault; what it did to the state stays in both cases, as with
exceptions in an imperative program.
-/

namespace AmoAnalytics

def Effect (S ε α : Type) : Type := S → Except ε α × S

namespace Effect

variable {S ε α β : Type}

instance : Monad (Effect S ε) where
  pure a := fun s => (.ok a, s)
  bind x f := fun s => match x s with
    | (.ok a, s') => f a s'
    | (.error e, s') => (.error e, s')

def fail (e : ε) : Effect S ε α := fun s => (.error e, s)

def modify (f : S → S) : Effect S ε Unit := fun s => (.ok (), f s)

def gets (f : S → α) : Effect S ε α := fun s => (.ok (f s), s)

def ofExcept (x : Except ε α) : Effect S ε α := fun s => (x, s)

/-- `if (condition) throw`. -/
def failIf (condition : Bool) (e : ε) : Effect S ε Unit := if condition then fail e else pure ()

/-- `for (const item of items) body(item)`. -/
def each (body : α → Effect S ε Unit) : List α → Effect S ε Unit
  | [] => pure ()
  | item :: items => do
    body item
    each body items

theorem ofExcept_bind (a : α) (f : α → Effect S ε β) : (ofExcept (.ok a) >>= f) = f a := rfl
/-! ## Pre- and postconditions -/

/-- From a state with `P` the run ends with a value and `Q`, or with a fault and `E`. -/
def Triple (P : S → Prop) (x : Effect S ε α) (Q : α → S → Prop) (E : ε → S → Prop) : Prop :=
  ∀ s, P s → match x s with
    | (.ok a, t) => Q a t
    | (.error e, t) => E e t

namespace Triple

variable {P P' : S → Prop} {Q Q' : α → S → Prop} {E E' : ε → S → Prop}

theorem conseq {x : Effect S ε α} (h : Triple P x Q E) (hP : ∀ s, P' s → P s) (hQ : ∀ a s, Q a s → Q' a s)
    (hE : ∀ e s, E e s → E' e s) : Triple P' x Q' E' := by
  intro s hs
  have hrun := h s (hP s hs)
  revert hrun
  rcases x s with ⟨e | a, t⟩
  · exact hE e t
  · exact hQ a t

theorem pure {a : α} (h : ∀ s, P s → Q a s) : Triple P (Pure.pure a : Effect S ε α) Q E := h

theorem fail {e : ε} (h : ∀ s, P s → E e s) : Triple P (Effect.fail e : Effect S ε α) Q E := h

theorem modify {f : S → S} {Q : Unit → S → Prop} (h : ∀ s, P s → Q () (f s)) :
    Triple P (Effect.modify f : Effect S ε Unit) Q E := h

theorem gets {f : S → α} (h : ∀ s, P s → Q (f s) s) : Triple P (Effect.gets f : Effect S ε α) Q E := h

theorem ofExcept {x : Except ε α} (hok : ∀ s a, P s → x = .ok a → Q a s)
    (herror : ∀ s e, P s → x = .error e → E e s) : Triple P (Effect.ofExcept x : Effect S ε α) Q E := by
  intro s hs
  cases x with
  | ok a => exact hok s a hs rfl
  | error e => exact herror s e hs rfl

theorem failIf {condition : Bool} {e : ε} {Q : Unit → S → Prop} (htrue : ∀ s, P s → condition = true → E e s)
    (hfalse : ∀ s, P s → condition = false → Q () s) :
    Triple P (Effect.failIf condition e : Effect S ε Unit) Q E := by
  intro s hs
  cases condition with
  | true => exact htrue s hs rfl
  | false => exact hfalse s hs rfl

theorem of_and {p : Prop} {x : Effect S ε α} (h : p → Triple P x Q E) : Triple (fun s => P s ∧ p) x Q E :=
  fun s hs => h hs.2 s hs.1

theorem bind {x : Effect S ε α} {f : α → Effect S ε β} {R : β → S → Prop} (hx : Triple P x Q E)
    (hf : ∀ a, Triple (Q a) (f a) R E) : Triple P (x >>= f) R E := by
  intro s hs
  have hrun := hx s hs
  change match (match x s with
    | (.ok a, t) => f a t
    | (.error e, t) => (.error e, t)) with
    | (.ok b, t) => R b t
    | (.error e, t) => E e t
  revert hrun
  rcases x s with ⟨e | a, t⟩
  · exact fun hrun => hrun
  · exact hf a t

/-- The loop over a list: what holds after the items done. -/
theorem each {body : α → Effect S ε Unit} {I : List α → S → Prop} {items : List α}
    (h : ∀ done item rest, items = done ++ item :: rest →
      Triple (I done) (body item) (fun _ => I (done ++ [item])) E) :
    Triple (I []) (Effect.each body items) (fun _ => I items) E := by
  have hloop : ∀ rest done, items = done ++ rest → Triple (I done) (Effect.each body rest) (fun _ => I items) E := by
    intro rest
    induction rest with
    | nil =>
      intro done hdone
      rw [List.append_nil] at hdone
      exact pure fun s hs => hdone ▸ hs
    | cons item rest ih =>
      intro done hdone
      exact bind (h done item rest hdone) fun _ => ih _ (by rw [hdone, List.append_assoc, List.singleton_append])
  exact hloop items [] rfl

end Triple

end Effect

end AmoAnalytics
