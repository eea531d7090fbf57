import Mathlib.Logic.Relation
import Mathlib.Data.List.Basic

/-! # Runs of labelled transition systems

A run of a step relation records the labels of its steps, oldest first.
Safety properties are invariants: proved once for a single step, they hold
along every run. Properties of what a run has emitted so far are trace
invariants, which may read the labels of the prefix as well as the state.
-/

namespace Lts

variable {σ α : Type*} {step : σ → α → σ → Prop} {s₀ s t u : σ} {l l' : List α} {a : α}

/-- The runs of `step` from `s₀`, with the labels of their steps in order. -/
inductive Run (step : σ → α → σ → Prop) (s₀ : σ) : List α → σ → Prop
  | nil : Run step s₀ [] s₀
  | snoc {l : List α} {s t : σ} {a : α} : Run step s₀ l s → step s a t → Run step s₀ (l ++ [a]) t

def Reachable (step : σ → α → σ → Prop) (s₀ s : σ) : Prop := ∃ l, Run step s₀ l s

theorem Run.single (h : step s a t) : Run step s [a] t := by
  simpa using Run.snoc Run.nil h

theorem Run.append (h₁ : Run step s₀ l s) (h₂ : Run step s l' t) : Run step s₀ (l ++ l') t := by
  induction h₂ with
  | nil => simpa using h₁
  | snoc _ hs ih =>
    rw [← List.append_assoc]
    exact .snoc ih hs

theorem Run.reachable (h : Run step s₀ l s) : Reachable step s₀ s := ⟨l, h⟩

theorem Reachable.refl : Reachable step s₀ s₀ := ⟨[], .nil⟩

theorem Reachable.trans (h₁ : Reachable step s₀ s) (h₂ : Reachable step s t) :
    Reachable step s₀ t := by
  obtain ⟨l, h₁⟩ := h₁
  obtain ⟨l', h₂⟩ := h₂
  exact ⟨l ++ l', h₁.append h₂⟩

theorem Reachable.tail (h : Reachable step s₀ s) (hs : step s a t) : Reachable step s₀ t :=
  h.trans (Run.single hs).reachable

theorem Run.invariant {P : σ → Prop} (h0 : P s₀) (hs : ∀ s a t, P s → step s a t → P t)
    (h : Run step s₀ l s) : P s := by
  induction h with
  | nil => exact h0
  | snoc _ ht ih => exact hs _ _ _ ih ht

theorem Reachable.invariant {P : σ → Prop} (h0 : P s₀) (hs : ∀ s a t, P s → step s a t → P t)
    (h : Reachable step s₀ s) : P s := by
  obtain ⟨l, h⟩ := h
  exact h.invariant h0 hs

theorem Run.traceInvariant {P : List α → σ → Prop} (h0 : P [] s₀)
    (hs : ∀ l s a t, P l s → step s a t → P (l ++ [a]) t) (h : Run step s₀ l s) : P l s := by
  induction h with
  | nil => exact h0
  | snoc _ ht ih => exact hs _ _ _ _ ih ht

/-- `Q` holds of every label of a trace, read together with the labels before it. -/
def EveryStep (Q : List α → α → Prop) (l : List α) : Prop :=
  ∀ pre a post, l = pre ++ a :: post → Q pre a

theorem everyStep_nil {Q : List α → α → Prop} : EveryStep Q [] := by
  intro pre a post h
  simp at h

theorem everyStep_snoc {Q : List α → α → Prop} :
    EveryStep Q (l ++ [a]) ↔ EveryStep Q l ∧ Q l a := by
  constructor
  · intro h
    refine ⟨fun pre b post he => h pre b (post ++ [a]) (by simp [he]), h l a [] rfl⟩
  · rintro ⟨hl, ha⟩ pre b post he
    rcases List.eq_nil_or_concat post with rfl | ⟨post', c, rfl⟩
    · obtain ⟨rfl, rfl⟩ : l = pre ∧ a = b := by simpa using he
      exact ha
    · have he' : l ++ [a] = (pre ++ b :: post') ++ [c] := by simpa using he
      obtain ⟨hl', -⟩ := List.append_inj' he' rfl
      exact hl pre b post' hl'

end Lts
