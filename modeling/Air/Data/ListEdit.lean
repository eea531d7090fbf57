import Mathlib.Data.List.Basic

/-! # Edits of a list, and of its reverse

A list shown in the opposite order is edited at mirrored indices: setting index `i` of `l` is
setting index `l.length - 1 - i` of `l.reverse`, and removing it is cutting out that index of the
reverse. Edits commute with a map applied to every element.
-/

namespace List

variable {α : Type*}

theorem reverse_set (l : List α) {i : ℕ} (hi : i < l.length) (a : α) :
    (l.set i a).reverse = l.reverse.set (l.length - 1 - i) a := by
  apply ext_getElem
  · simp
  · intro j h₁ h₂
    have hj : j < l.length := by simpa using h₁
    simp only [getElem_reverse, getElem_set, length_set]
    split_ifs with h h' h' <;> first | rfl | omega

theorem reverse_eraseIdx (l : List α) {i : ℕ} (hi : i < l.length) :
    (l.eraseIdx i).reverse = l.reverse.take (l.length - 1 - i) ++ l.reverse.drop (l.length - i) := by
  rw [eraseIdx_eq_take_drop_succ, reverse_append, take_reverse, drop_reverse]
  congr 3 <;> omega

theorem map_eraseIdx {β : Type*} (f : α → β) (l : List α) (i : ℕ) :
    (l.eraseIdx i).map f = (l.map f).eraseIdx i := by
  rw [eraseIdx_eq_take_drop_succ, eraseIdx_eq_take_drop_succ, map_append, map_take, map_drop]

end List
