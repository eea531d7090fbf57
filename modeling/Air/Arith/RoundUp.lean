import Mathlib.Data.Nat.Bitwise

/-! # Rounding up to a multiple

`roundUp n a` is the least multiple of `a` that is at least `n`. Code that rounds up to a
power of two does it with a mask: it adds `2 ^ z - 1` and clears the low `z` bits, in a
machine word of `w` bits; `land_xor_two_pow_sub_one` says the two agree when the sum fits.
-/

namespace Nat

/-- The least multiple of `a` that is at least `n`, for `0 < a`. -/
def roundUp (n a : ℕ) : ℕ := (n + (a - 1)) / a * a

section RoundUp

variable {n m q a : ℕ}

theorem le_roundUp (ha : 0 < a) : n ≤ roundUp n a := by
  have := Nat.lt_div_mul_add (a := n + (a - 1)) ha
  unfold roundUp
  omega

theorem roundUp_lt (ha : 0 < a) : roundUp n a < n + a := by
  have := Nat.div_mul_le_self (n + (a - 1)) a
  unfold roundUp
  omega

theorem dvd_roundUp (n a : ℕ) : a ∣ roundUp n a := Nat.dvd_mul_left a _

theorem roundUp_le (ha : 0 < a) (hn : n ≤ q) (hq : a ∣ q) : roundUp n a ≤ q := by
  obtain ⟨k, rfl⟩ := hq
  have hlt : (n + (a - 1)) / a < k + 1 := by
    rw [Nat.div_lt_iff_lt_mul ha, Nat.add_mul, Nat.one_mul, Nat.mul_comm k]
    omega
  calc roundUp n a = (n + (a - 1)) / a * a := rfl
    _ ≤ k * a := Nat.mul_le_mul_right a (Nat.le_of_lt_succ hlt)
    _ = a * k := Nat.mul_comm k a

theorem roundUp_eq_self (ha : 0 < a) (h : a ∣ n) : roundUp n a = n :=
  Nat.le_antisymm (roundUp_le ha le_rfl h) (le_roundUp ha)

theorem roundUp_mono (ha : 0 < a) (h : n ≤ m) : roundUp n a ≤ roundUp m a :=
  roundUp_le ha (h.trans (le_roundUp ha)) (dvd_roundUp m a)

theorem roundUp_sub_lt (ha : 0 < a) : roundUp n a - n < a := by
  have := roundUp_lt (n := n) ha
  omega

end RoundUp

theorem land_xor_two_pow_sub_one {x z w : ℕ} (hx : x < 2 ^ w) (hz : z ≤ w) :
    x &&& ((2 ^ z - 1) ^^^ (2 ^ w - 1)) = x / 2 ^ z * 2 ^ z := by
  apply Nat.eq_of_testBit_eq
  intro i
  simp only [Nat.testBit_and, Nat.testBit_xor, Nat.testBit_two_pow_sub_one,
    Nat.testBit_mul_two_pow, Nat.testBit_div_two_pow]
  by_cases hiz : i < z
  · have hiw : i < w := Nat.lt_of_lt_of_le hiz hz
    simp [hiz, hiw, Nat.not_le.mpr hiz]
  by_cases hiw : i < w
  · simp [hiz, hiw, Nat.le_of_not_lt hiz, Nat.sub_add_cancel (Nat.le_of_not_lt hiz)]
  have hbit : x.testBit i = false :=
    Nat.testBit_lt_two_pow
      (Nat.lt_of_lt_of_le hx (Nat.pow_le_pow_right Nat.two_pos (Nat.le_of_not_lt hiw)))
  simp [hiz, hiw, Nat.le_of_not_lt hiz, Nat.sub_add_cancel (Nat.le_of_not_lt hiz), hbit]

/-- Adding `2 ^ z - 1` and clearing the low `z` bits rounds up to a multiple of `2 ^ z`, when
the sum fits in the word. -/
theorem add_land_xor_eq_roundUp {x z w : ℕ} (hx : x + (2 ^ z - 1) < 2 ^ w) (hz : z ≤ w) :
    (x + (2 ^ z - 1)) % 2 ^ w &&& ((2 ^ z - 1) ^^^ (2 ^ w - 1)) = roundUp x (2 ^ z) := by
  rw [Nat.mod_eq_of_lt hx, land_xor_two_pow_sub_one hx hz]
  rfl

end Nat
