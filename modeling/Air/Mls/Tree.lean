import Mathlib.Data.List.Basic

/-! # The leaves of an MLS ratchet tree

The members of an MLS group sit at the leaves of its ratchet tree, each leaf holding a
member's signature key or blank. Merging a commit blanks the leaves its Remove and
SelfRemove proposals name, then places the members its Add proposals bring at the
leftmost blank leaves, in proposal order, extending the tree when none is blank; an
external commit places its joiner the same way afterwards. Trailing blank leaves that an
implementation truncates are not observable through `member`, which is how everything
here reads a tree.
-/

namespace Mls

variable {K : Type*}

/-- The leaves of a ratchet tree: each a member's signature key, or blank. -/
abbrev Leaves (K : Type*) := List (Option K)

/-- The member at leaf `i`: `none` for a blank leaf and for one past the end. -/
def member (leaves : Leaves K) (i : ℕ) : Option K := leaves[i]?.join

def blank (leaves : Leaves K) (i : ℕ) : Leaves K := leaves.set i none

/-- The leftmost blank leaf, the end of the tree if there is none. -/
def leftmostBlank (leaves : Leaves K) : ℕ := leaves.findIdx Option.isNone

def add (leaves : Leaves K) (k : K) : Leaves K :=
  if leftmostBlank leaves < leaves.length then leaves.set (leftmostBlank leaves) (some k)
  else leaves ++ [some k]

def replace (leaves : Leaves K) (i : ℕ) (k : K) : Leaves K :=
  if (member leaves i).isSome then leaves.set i (some k) else leaves

/-- Merging a commit: its removed leaves are blanked, then its added members placed. -/
def merge (leaves : Leaves K) (removed : List ℕ) (added : List K) : Leaves K :=
  added.foldl add (removed.foldl blank leaves)

/-- The first leaf holding signature key `k`, as a search over the members gives it. -/
def findMember [DecidableEq K] (leaves : Leaves K) (k : K) : Option ℕ :=
  leaves.findIdx? fun x => decide (x = some k)

def KeysUnique (leaves : Leaves K) : Prop :=
  ∀ i j k, member leaves i = some k → member leaves j = some k → i = j

@[simp] theorem member_blank (leaves : Leaves K) (i j : ℕ) :
    member (blank leaves i) j = if j = i then none else member leaves j := by
  unfold member blank
  rw [List.getElem?_set]
  by_cases h : j = i
  · subst h
    split_ifs <;> rfl
  · rw [if_neg (Ne.symm h), if_neg h]

theorem member_of_length_le {leaves : Leaves K} {i : ℕ} (h : leaves.length ≤ i) :
    member leaves i = none := by
  simp [member, List.getElem?_eq_none h]

theorem member_leftmostBlank (leaves : Leaves K) : member leaves (leftmostBlank leaves) = none := by
  by_cases h : leftmostBlank leaves < leaves.length
  · have hb := List.findIdx_getElem (w := h)
    simp only [member, List.getElem?_eq_getElem h, Option.join_some]
    exact Option.isNone_iff_eq_none.mp hb
  · exact member_of_length_le (Nat.le_of_not_lt h)

theorem member_ne_none_of_lt_leftmostBlank {leaves : Leaves K} {j : ℕ}
    (h : j < leftmostBlank leaves) : member leaves j ≠ none := by
  have hj : j < leaves.length := Nat.lt_of_lt_of_le h List.findIdx_le_length
  have hb := List.not_of_lt_findIdx h
  simp only [member, List.getElem?_eq_getElem hj, Option.join_some]
  exact Option.isSome_iff_ne_none.mp (by simpa using hb)

theorem leftmostBlank_congr {leaves leaves' : Leaves K} (h : ∀ i, member leaves i = member leaves' i) :
    leftmostBlank leaves = leftmostBlank leaves' := by
  apply Nat.le_antisymm
  · by_contra hlt
    exact member_ne_none_of_lt_leftmostBlank (Nat.lt_of_not_le hlt)
      ((h _).trans (member_leftmostBlank leaves'))
  · by_contra hlt
    exact member_ne_none_of_lt_leftmostBlank (Nat.lt_of_not_le hlt)
      ((h _).symm.trans (member_leftmostBlank leaves))

@[simp] theorem member_add (leaves : Leaves K) (k : K) (j : ℕ) :
    member (add leaves k) j = if j = leftmostBlank leaves then some k else member leaves j := by
  unfold add
  split
  · rename_i hlt
    unfold member
    rw [List.getElem?_set]
    by_cases h : j = leftmostBlank leaves
    · subst h
      simp [hlt]
    · rw [if_neg (Ne.symm h), if_neg h]
  · rename_i hge
    have hend : leftmostBlank leaves = leaves.length :=
      Nat.le_antisymm List.findIdx_le_length (Nat.le_of_not_lt hge)
    rw [hend]
    rcases Nat.lt_trichotomy j leaves.length with hj | rfl | hj
    · simp [member, List.getElem?_append_left hj, Nat.ne_of_lt hj]
    · simp [member]
    · rw [if_neg (Nat.ne_of_gt hj), member_of_length_le (Nat.le_of_lt hj)]
      exact member_of_length_le (by simp only [List.length_append, List.length_singleton]; omega)

@[simp] theorem member_replace (leaves : Leaves K) (i : ℕ) (k : K) (j : ℕ) :
    member (replace leaves i k) j =
      if j = i ∧ (member leaves i).isSome then some k else member leaves j := by
  unfold replace
  split
  · rename_i hi
    have hlt : i < leaves.length := by
      by_contra hge
      simp [member_of_length_le (Nat.le_of_not_lt hge)] at hi
    have hset : member (leaves.set i (some k)) j = if j = i then some k else member leaves j := by
      unfold member
      rw [List.getElem?_set]
      by_cases h : j = i
      · subst h
        simp [hlt]
      · rw [if_neg (Ne.symm h), if_neg h]
    rw [hset]
    by_cases h : j = i
    · simp [h, hi]
    · simp [h]
  · rename_i hi
    simp [hi]

theorem isSome_member_replace (leaves : Leaves K) (i : ℕ) (k : K) (j : ℕ) :
    (member (replace leaves i k) j).isSome = (member leaves j).isSome := by
  rw [member_replace]
  split
  · rename_i h
    obtain ⟨rfl, h⟩ := h
    simp [h]
  · rfl

theorem member_foldl_blank (leaves : Leaves K) (removed : List ℕ) (j : ℕ) :
    member (removed.foldl blank leaves) j = if j ∈ removed then none else member leaves j := by
  induction removed generalizing leaves with
  | nil => simp
  | cons i removed ih =>
    rw [List.foldl_cons, ih, member_blank]
    by_cases hj : j ∈ removed
    · simp [hj]
    · by_cases hi : j = i <;> simp [hi, hj]

theorem member_foldl_add_of_ne_none {leaves : Leaves K} {j : ℕ} (h : member leaves j ≠ none)
    (added : List K) : member (added.foldl add leaves) j = member leaves j := by
  induction added generalizing leaves with
  | nil => rfl
  | cons k added ih =>
    have hj : j ≠ leftmostBlank leaves := fun he => h (he ▸ member_leftmostBlank leaves)
    have hadd : member (add leaves k) j = member leaves j := by simp [hj]
    rw [List.foldl_cons, ih (hadd ▸ h), hadd]

theorem member_foldl_add_eq_some {leaves : Leaves K} {added : List K} {i : ℕ} {k : K}
    (h : member (added.foldl add leaves) i = some k) : member leaves i = some k ∨ k ∈ added := by
  induction added generalizing leaves with
  | nil => exact .inl h
  | cons k' added ih =>
    rcases ih h with h' | h'
    · rw [member_add] at h'
      split at h'
      · exact .inr (by simp [(Option.some.inj h').symm])
      · exact .inl h'
    · exact .inr (List.mem_cons_of_mem k' h')

theorem member_foldl_add_congr {leaves leaves' : Leaves K} (h : ∀ i, member leaves i = member leaves' i)
    (added : List K) (i : ℕ) :
    member (added.foldl add leaves) i = member (added.foldl add leaves') i := by
  induction added generalizing leaves leaves' with
  | nil => exact h i
  | cons k added ih =>
    apply ih
    intro j
    simp [h j, leftmostBlank_congr h]

/-- Two trees with the same members stay so under the same commit, whatever the order in
which it lists its removed leaves. -/
theorem member_merge_congr {leaves leaves' : Leaves K} (h : ∀ i, member leaves i = member leaves' i)
    {removed removed' : List ℕ} (hr : ∀ i, i ∈ removed ↔ i ∈ removed') (added : List K) (i : ℕ) :
    member (merge leaves removed added) i = member (merge leaves' removed' added) i := by
  apply member_foldl_add_congr
  intro j
  simp only [member_foldl_blank, hr, h]

section Find

variable [DecidableEq K]

theorem member_of_findMember {leaves : Leaves K} {k : K} {i : ℕ} (h : findMember leaves k = some i) :
    member leaves i = some k := by
  obtain ⟨hi, hk, -⟩ := List.findIdx?_eq_some_iff_getElem.mp h
  simpa [member, List.getElem?_eq_getElem hi] using hk

theorem findMember_of_member {leaves : Leaves K} (huniq : KeysUnique leaves) {i : ℕ} {k : K}
    (h : member leaves i = some k) : findMember leaves k = some i := by
  have hi : i < leaves.length := by
    by_contra hge
    rw [member_of_length_le (Nat.le_of_not_lt hge)] at h
    cases h
  refine List.findIdx?_eq_some_iff_getElem.mpr ⟨hi, ?_, fun j hji hj => ?_⟩
  · simpa [member, List.getElem?_eq_getElem hi] using h
  · have hjk : member leaves j = some k := by
      simpa [member, List.getElem?_eq_getElem (Nat.lt_trans hji hi)] using hj
    exact Nat.ne_of_lt hji (huniq j i k hjk h)

theorem findMember_eq_some_iff {leaves : Leaves K} (huniq : KeysUnique leaves) {k : K} {i : ℕ} :
    findMember leaves k = some i ↔ member leaves i = some k :=
  ⟨member_of_findMember, findMember_of_member huniq⟩

end Find

end Mls
