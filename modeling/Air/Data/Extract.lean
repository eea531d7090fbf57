import Mathlib

/-! # Windows of a list

`l.extract lo hi` is the window of `l` from index `lo` up to `hi`. A window grown by a page on
either side, cut back to a bound from either end, or taken at the end of a list is again a
window. In a list sorted by a key the rows below, at or above a key are a prefix or a suffix,
so a page read by key is a window too.
-/

namespace List

variable {α : Type*} (l : List α)

theorem length_extract (lo hi : ℕ) : (l.extract lo hi).length = min hi l.length - lo := by
  simp only [extract_eq_take_drop, length_take, length_drop]
  omega

theorem extract_min_length (lo hi : ℕ) : l.extract lo (min hi l.length) = l.extract lo hi := by
  simp only [extract_eq_take_drop]
  rw [take_eq_take_iff, length_drop]
  omega

theorem extract_append_extract {a b c : ℕ} (hab : a ≤ b) (hbc : b ≤ c) :
    l.extract a b ++ l.extract b c = l.extract a c := by
  simp only [extract_eq_take_drop]
  rw [show c - a = (b - a) + (c - b) by omega, take_add, drop_drop, Nat.add_sub_cancel' hab]

theorem take_extract (lo hi n : ℕ) : (l.extract lo hi).take n = l.extract lo (min hi (lo + n)) := by
  simp only [extract_eq_take_drop, take_take]
  congr 1
  omega

theorem drop_extract (lo hi n : ℕ) : (l.extract lo hi).drop n = l.extract (lo + n) hi := by
  simp only [extract_eq_take_drop, drop_take, drop_drop]
  congr 1
  omega

theorem take_drop_eq_extract (a n : ℕ) : (l.drop a).take n = l.extract a (a + n) := by
  simp

theorem rtake_take {a : ℕ} (ha : a ≤ l.length) (n : ℕ) : (l.take a).rtake n = l.extract (a - n) a := by
  rw [rtake, length_take, Nat.min_eq_left ha, drop_take, extract_eq_take_drop]

theorem rtake_eq_extract (n : ℕ) : l.rtake n = l.extract (l.length - n) l.length := by
  simp [rtake]

theorem extract_map {β : Type*} (f : α → β) (lo hi : ℕ) :
    (l.map f).extract lo hi = (l.extract lo hi).map f := by
  simp [map_drop, map_take]

theorem extract_eq_nil_iff {lo hi : ℕ} (hhi : hi ≤ l.length) : l.extract lo hi = [] ↔ hi ≤ lo := by
  rw [← length_eq_zero_iff, length_extract]
  omega

theorem head?_extract {lo hi : ℕ} (h : lo < hi) : (l.extract lo hi).head? = l[lo]? := by
  simp only [extract_eq_take_drop, head?_take, head?_drop]
  rw [if_neg (by omega)]

theorem getLast?_extract {lo hi : ℕ} (h : lo < hi) (hhi : hi ≤ l.length) :
    (l.extract lo hi).getLast? = l[hi - 1]? := by
  rw [getLast?_eq_getElem?, length_extract, extract_eq_take_drop, getElem?_take, getElem?_drop,
    if_pos (by omega)]
  congr 1
  omega

theorem mem_extract_of_getElem? {lo hi i : ℕ} {x : α} (hlo : lo ≤ i) (hhi : i < hi)
    (h : l[i]? = some x) : x ∈ l.extract lo hi := by
  apply mem_of_getElem? (i := i - lo)
  rw [extract_eq_take_drop, getElem?_take, if_pos (by omega), getElem?_drop,
    Nat.add_sub_cancel' hlo, h]

/-! ## Rows sorted by key -/

section Sorted

variable {κ β : Type*} [LinearOrder κ] {rows : List (κ × β)}

/-- In a list sorted by key, the rows at or below a key come first. -/
theorem filter_le_eq_take (hs : rows.Pairwise fun r s => r.1 < s.1) (k : κ) :
    rows.filter (fun r => r.1 ≤ k) = rows.take (rows.countP fun r => r.1 ≤ k) := by
  induction rows with
  | nil => simp
  | cons r rows ih =>
    rw [pairwise_cons] at hs
    by_cases hr : r.1 ≤ k
    · rw [filter_cons_of_pos (by simpa using hr), countP_cons_of_pos (by simpa using hr),
        take_succ_cons, ih hs.2]
    · -- every later row has a greater key, so none of them is at or below `k`
      have hnone : ∀ s ∈ rows, ¬ s.1 ≤ k := fun s hs' hsk =>
        hr (le_of_lt (lt_of_lt_of_le (hs.1 s hs') hsk))
      rw [filter_cons_of_neg (by simpa using hr), countP_cons_of_neg (by simpa using hr),
        filter_eq_nil_iff.mpr (by simpa using hnone), countP_eq_zero.mpr (by simpa using hnone),
        take_zero]

theorem filter_lt_eq_drop (hs : rows.Pairwise fun r s => r.1 < s.1) (k : κ) :
    rows.filter (fun r => k < r.1) = rows.drop (rows.countP fun r => r.1 ≤ k) := by
  induction rows with
  | nil => simp
  | cons r rows ih =>
    rw [pairwise_cons] at hs
    by_cases hr : r.1 ≤ k
    · rw [filter_cons_of_neg (by simpa using hr), countP_cons_of_pos (by simpa using hr),
        drop_succ_cons, ih hs.2]
    · -- every later row has a greater key, so all of them are above `k`
      have hall : ∀ s ∈ rows, k < s.1 := fun s hs' => lt_trans (lt_of_not_ge hr) (hs.1 s hs')
      rw [filter_cons_of_pos (by simpa using hr), countP_cons_of_neg (by simpa using hr),
        countP_eq_zero.mpr (fun s hs' => by simpa using hall s hs'), drop_zero,
        filter_eq_self.mpr (fun s hs' => by simpa using hall s hs')]

theorem countP_le_getElem (hs : rows.Pairwise fun r s => r.1 < s.1) {j : ℕ}
    (hj : j < rows.length) : rows.countP (fun r => r.1 ≤ rows[j].1) = j + 1 := by
  induction rows generalizing j with
  | nil => exact absurd hj (Nat.not_lt_zero _)
  | cons r rows ih =>
    rw [pairwise_cons] at hs
    cases j with
    | zero =>
      rw [getElem_cons_zero, countP_cons_of_pos (by simp),
        countP_eq_zero.mpr (fun s hs' => by simpa using hs.1 s hs')]
    | succ j =>
      have hj' : j < rows.length := Nat.lt_of_succ_lt_succ hj
      have hlt : r.1 < rows[j].1 := hs.1 _ (getElem_mem hj')
      rw [getElem_cons_succ, countP_cons_of_pos (by simpa using hlt.le), ih hs.2 hj']

/-- In a list sorted by key, the rows above the key of row `j` are those after it. -/
theorem filter_gt_getElem (hs : rows.Pairwise fun r s => r.1 < s.1) {j : ℕ}
    (hj : j < rows.length) : rows.filter (fun r => rows[j].1 < r.1) = rows.drop (j + 1) := by
  rw [filter_lt_eq_drop hs, countP_le_getElem hs hj]

end Sorted

end List
