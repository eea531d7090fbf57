import Mathlib.Logic.Basic

/-! # Specifications of computations over a state that can fail

A computation in `StateT σ (Except ε)` run from a state either returns a value and a new state
or raises an error. `Spec m s ok err` says how the run of `m` from `s` ends: `ok` holds of what
it returns and `err` of what it raises. The rules below take a `do` block apart one step at a
time, so that a proof about a program follows the program.
-/

namespace StateT

universe u

variable {σ ε α β : Type u}

/-- How the run of `m` from `s` ends: `ok` holds of the value and state it returns, `err` of
the error it raises. -/
def Spec (m : StateT σ (Except ε) α) (s : σ) (ok : α → σ → Prop) (err : ε → Prop) : Prop :=
  match m s with
  | .ok (a, s') => ok a s'
  | .error e => err e

variable {m : StateT σ (Except ε) α} {s : σ} {ok : α → σ → Prop} {err : ε → Prop}

theorem Spec.pure {a : α} (h : ok a s) : Spec (pure a) s ok err := h

theorem Spec.throw {e : ε} (h : err e) : Spec (throw e : StateT σ (Except ε) α) s ok err := h

/-- Sequencing: what the first step returns, as `mid` describes it, is where the rest starts. -/
theorem Spec.bind {f : α → StateT σ (Except ε) β} {mid : α → σ → Prop} {ok : β → σ → Prop}
    (hm : Spec m s mid err) (hf : ∀ a s', mid a s' → Spec (f a) s' ok err) :
    Spec (m >>= f) s ok err := by
  unfold Spec at hm
  show match (m s).bind (fun p => f p.1 p.2) with
    | .ok (b, s'') => ok b s''
    | .error e => err e
  cases h : m s with
  | error e =>
    rw [h] at hm
    exact hm
  | ok p =>
    rw [h] at hm
    exact hf p.1 p.2 hm

theorem Spec.map {f : α → β} {ok : β → σ → Prop} (h : Spec m s (fun a s' => ok (f a) s') err) :
    Spec (f <$> m) s ok err := by
  rw [← bind_pure_comp]
  exact Spec.bind h fun _ _ ha => Spec.pure ha

theorem Spec.mono {ok' : α → σ → Prop} {err' : ε → Prop} (h : Spec m s ok err)
    (hok : ∀ a s', ok a s' → ok' a s') (herr : ∀ e, err e → err' e) : Spec m s ok' err' := by
  unfold Spec at h ⊢
  revert h
  generalize m s = r
  rcases r with e | ⟨a, s'⟩
  · exact herr e
  · exact hok a s'

theorem Spec.of_eq_ok {a : α} {s' : σ} (h : Spec m s ok err) (hm : m s = .ok (a, s')) :
    ok a s' := by
  unfold Spec at h
  rwa [hm] at h

theorem Spec.ne_error {e : ε} (h : Spec m s ok err) (he : ¬ err e) : m s ≠ .error e := by
  intro hm
  unfold Spec at h
  rw [hm] at h
  exact he h

end StateT
