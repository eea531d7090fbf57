import Mathlib.Logic.Basic

/-! # Inverting computations in `Except`

A handler written with `do` and `?` in `Except` returns `.ok` only when each step on its
way returns `.ok`. These rewrites turn a hypothesis `prog = .ok v` into the results of its
steps, one existential per bind.
-/

namespace Except

universe u v

variable {ε : Type u} {α β : Type v}

@[simp] theorem bind_eq_ok {x : Except ε α} {f : α → Except ε β} {b : β} :
    x >>= f = .ok b ↔ ∃ a, x = .ok a ∧ f a = .ok b := by
  cases x <;> simp [bind, Except.bind]

@[simp] theorem pure_eq_ok {a b : α} : (pure a : Except ε α) = .ok b ↔ a = b := by
  simp [pure, Except.pure]

@[simp] theorem throw_ne_ok {e : ε} {a : α} : (throw e : Except ε α) ≠ .ok a := by
  simp [throw, throwThe, MonadExceptOf.throw]

/-- A failed check ends the block: what follows a `throw` is never run. -/
@[simp] theorem throw_bind {e : ε} {f : α → Except ε β} : (throw e >>= f : Except ε β) = throw e :=
  rfl

@[simp] theorem map_eq_ok {f : α → β} {x : Except ε α} {b : β} :
    f <$> x = .ok b ↔ ∃ a, x = .ok a ∧ f a = b := by
  cases x <;> simp [Functor.map, Except.map]

@[simp] theorem mapError_eq_ok {ε' : Type u} {g : ε → ε'} {x : Except ε α} {a : α} :
    x.mapError g = .ok a ↔ x = .ok a := by
  cases x with
  | error e => constructor <;> intro h <;> cases h
  | ok b => constructor <;> intro h <;> cases h <;> rfl

@[simp] theorem getDM_eq_ok {o : Option α} {e : ε} {a : α} :
    o.getDM (throw e : Except ε α) = .ok a ↔ o = some a := by
  cases o <;> simp [Option.getDM]

end Except
