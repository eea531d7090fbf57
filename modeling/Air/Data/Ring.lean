import Mathlib.Data.List.Rotate
import Mathlib.Data.List.DropRight

/-! # Lists read and written as rings

A fixed-length array used as a ring: reading starts at a position and wraps around the end,
writing copies a slice in two parts, up to the end and then from the start. In terms of
`List.rotate` both are plain list operations: reading `rem` elements from `pos` is
`(l.rotate pos).take rem`, and writing `d` at `tail` turns the ring seen from `tail` into the
ring seen from `tail + d.length` with its first `d.length` elements dropped and `d` appended.
-/

namespace List

variable {α : Type*}

/-- `dst[i..i + src.len()].copy_from_slice(src)`, for a range inside `dst`. -/
def copyInto (dst : List α) (i : ℕ) (src : List α) : List α :=
  dst.take i ++ src ++ dst.drop (i + src.length)

theorem copyInto_nil (dst : List α) (i : ℕ) : copyInto dst i [] = dst := by
  simp [copyInto]

theorem length_copyInto {dst src : List α} {i : ℕ} (h : i + src.length ≤ dst.length) :
    (copyInto dst i src).length = dst.length := by
  simp only [copyInto, length_append, length_take, length_drop]
  omega

/-- Reading a ring in one contiguous piece of `cnt` elements from `pos`, then the rest from
`(pos + cnt) % l.length`. -/
theorem rotate_take_eq_append (l : List α) {pos rem cnt : ℕ} (hpos : pos < l.length)
    (hrem : rem ≤ l.length) (hcnt : cnt ≤ rem) (hend : pos + cnt ≤ l.length) :
    (l.rotate pos).take rem =
      (l.drop pos).take cnt ++ (l.rotate ((pos + cnt) % l.length)).take (rem - cnt) := by
  have hsplit : (l.rotate pos).take rem =
      (l.rotate pos).take cnt ++ ((l.rotate pos).drop cnt).take (rem - cnt) := by
    rw [← take_add, Nat.add_sub_cancel' hcnt]
  rw [hsplit, rotate_eq_drop_append_take hpos.le,
    take_append_of_le_length (by simp only [length_drop]; omega),
    drop_append_of_le_length (by simp only [length_drop]; omega), drop_drop]
  congr 1
  rcases Nat.lt_or_eq_of_le hend with hlt | heq
  · -- the rest starts inside the ring: both sides read `l.drop (pos + cnt)`, then the start
    rw [Nat.mod_eq_of_lt hlt, rotate_eq_drop_append_take hlt.le, take_append, take_append,
      take_take, take_take]
    congr 2
    simp only [length_drop]
    omega
  · -- the piece reaches the end: the rest starts again at `0`
    rw [heq, Nat.mod_self, rotate_zero, drop_eq_nil_of_le (by omega), nil_append, take_take]
    congr 1
    omega

theorem rotate_copyInto_copyInto (l d : List α) {tail : ℕ} (htail : tail < l.length)
    (hd : d.length ≤ l.length) :
    (copyInto (copyInto l tail (d.take (min d.length (l.length - tail)))) 0
        (d.drop (min d.length (l.length - tail)))).rotate ((tail + d.length) % l.length) =
      (l.rotate tail).drop d.length ++ d := by
  rw [rotate_eq_drop_append_take htail.le]
  by_cases hfit : d.length ≤ l.length - tail
  · -- `d` fits before the end: one copy
    rw [Nat.min_eq_left hfit, take_length, drop_length, copyInto_nil,
      drop_append_of_le_length (by simp only [length_drop]; omega), drop_drop]
    have hlen : (l.take tail ++ d).length = tail + d.length := by
      simp only [length_append, length_take]
      omega
    rcases Nat.lt_or_eq_of_le (show tail + d.length ≤ l.length by omega) with hlt | heq
    · rw [Nat.mod_eq_of_lt hlt, rotate_eq_drop_append_take (by
        rw [length_copyInto (by omega)]; omega)]
      simp only [copyInto]
      rw [drop_left' hlen, take_left' hlen, append_assoc]
    · rw [heq, Nat.mod_self, rotate_zero, drop_eq_nil_of_le (by omega), nil_append]
      simp [copyInto, heq]
  · -- `d` wraps: `r` elements go to the start of the ring
    have hm : l.length - tail < d.length := Nat.lt_of_not_le hfit
    rw [Nat.min_eq_right hm.le]
    set m := l.length - tail with hm_def
    set r := d.length - m with hr_def
    have hleft : (d.take m).length = m := by simp only [length_take]; omega
    have hright : (d.drop m).length = r := by rw [length_drop, hr_def]
    have hfirst : copyInto l tail (d.take m) = l.take tail ++ d.take m := by
      simp only [copyInto, hleft, append_assoc]
      rw [drop_eq_nil_of_le (by omega), append_nil]
    have hsecond : copyInto (l.take tail ++ d.take m) 0 (d.drop m) =
        d.drop m ++ ((l.take tail).drop r ++ d.take m) := by
      simp only [copyInto, take_zero, nil_append, hright, Nat.zero_add]
      rw [drop_append_of_le_length (by simp only [length_take]; omega)]
    have hmod : (tail + d.length) % l.length = r := by
      rw [show tail + d.length = r + l.length by omega, Nat.add_mod_right, Nat.mod_eq_of_lt (by omega)]
    have hmid : (d.drop m ++ ((l.take tail).drop r ++ d.take m)).length = l.length := by
      simp only [length_append, length_drop, length_take]
      omega
    have hrhs : (l.drop tail ++ l.take tail).drop d.length = (l.take tail).drop r := by
      rw [drop_append, drop_eq_nil_of_le (by simp only [length_drop]; omega), nil_append,
        length_drop]
    rw [hfirst, hsecond, hmod, rotate_eq_drop_append_take (show r ≤ _ by rw [hmid]; omega),
      drop_left' hright, take_left' hright, hrhs, append_assoc, take_append_drop]

theorem rotate_mod_drop_eq_take (l : List α) {w : ℕ} (hw : w ≤ l.length) :
    (l.rotate (w % l.length)).drop (l.length - w) = l.take w := by
  rcases Nat.lt_or_eq_of_le hw with hlt | rfl
  · have hdrop : (l.drop w).length = l.length - w := length_drop
    rw [Nat.mod_eq_of_lt hlt, rotate_eq_drop_append_take hw, ← hdrop, drop_left]
  · rw [Nat.mod_self, rotate_zero, Nat.sub_self, drop_zero, take_length]

/-! ## The last `n` elements -/

theorem drop_eq_drop_of_min_eq {l : List α} {x y : ℕ} (h : min x l.length = min y l.length) :
    l.drop x = l.drop y := by
  rcases Nat.le_total x l.length with hx | hx <;> rcases Nat.le_total y l.length with hy | hy
  · rw [Nat.min_eq_left hx, Nat.min_eq_left hy] at h
    rw [h]
  · rw [Nat.min_eq_left hx, Nat.min_eq_right hy] at h
    rw [h, drop_length, drop_eq_nil_of_le hy]
  · rw [Nat.min_eq_right hx, Nat.min_eq_left hy] at h
    rw [← h, drop_length, drop_eq_nil_of_le hx]
  · rw [drop_eq_nil_of_le hx, drop_eq_nil_of_le hy]

theorem length_rtake (l : List α) (n : ℕ) : (l.rtake n).length = min l.length n := by
  simp only [rtake, length_drop]
  omega

theorem rtake_append_rtake (s d : List α) (n : ℕ) :
    (s.rtake n ++ d.rtake n).rtake n = (s ++ d).rtake n := by
  simp only [rtake, length_append, length_drop, drop_append, drop_drop]
  congr 1 <;> apply drop_eq_drop_of_min_eq <;> omega

/-- The ring `R` seen from a write position holds, in its last `m` elements, the window;
writing `d` drops `d.length` elements from its front and appends `d`, and the window grows by
`d` and keeps its last `R.length` elements. -/
theorem drop_append_eq_rtake (R d : List α) {m : ℕ} (hm : m ≤ R.length) (hd : d.length ≤ R.length) :
    (R.drop d.length ++ d).drop (R.length - min (m + d.length) R.length) =
      (R.drop (R.length - m) ++ d).rtake R.length := by
  simp only [rtake, length_append, length_drop, drop_append, drop_drop]
  congr 1 <;> apply drop_eq_drop_of_min_eq <;> omega

end List
