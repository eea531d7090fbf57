import Mathlib.Data.Nat.Log
import Air.Arith.RoundUp

/-! # Padmé lengths

`padme_len` of `common/src/padme.rs`, Algorithm 1 "Padmé" of the PURB paper: a length `len`
with `e = ⌊log₂ len⌋` is rounded up to a multiple of `2 ^ z` with `z = e - (⌊log₂ e⌋ + 1)`,
so at most the low `z` bits change and the overhead is below `2 ^ z`. The source computes
the logarithms with `leading_zeros` and saturating subtractions, which also covers
`len = 0`, and rounds with a mask on a 64-bit `usize`.

Whenever the masked sum does not wrap (`padmeLen_eq`), the result is `Nat.roundUp`: it is at
least `len`, idempotent, monotone, fixes every power of two, and adds less than `2 ^ z`.
-/

namespace Air

open Nat

def leadingZeros (x : ℕ) : ℕ := if x = 0 then 64 else 63 - x.log2

def usizeMax : ℕ := 2 ^ 64 - 1

def padmeLen (len : ℕ) : ℕ :=
  -- ilog2(len)
  let e := 63 - leadingZeros len
  -- ilog2(e) + 1
  let s := (63 - leadingZeros e) + 1
  let z := e - s
  let mask := (1 <<< z) - 1
  (len + mask) % 2 ^ 64 &&& (mask ^^^ usizeMax)

def padmePaddingLen (len : ℕ) : ℕ := padmeLen len - len

/-- The number of low bits Padmé rounds: `⌊log₂ len⌋ - (⌊log₂ ⌊log₂ len⌋⌋ + 1)`, saturating. -/
def padmeShift (len : ℕ) : ℕ := Nat.log 2 len - (Nat.log 2 (Nat.log 2 len) + 1)

theorem sub_leadingZeros {x : ℕ} (hx : x < 2 ^ 64) : 63 - leadingZeros x = Nat.log 2 x := by
  unfold leadingZeros
  split
  · rename_i h0
    subst h0
    rfl
  · rename_i h0
    have hlt : x.log2 < 64 := (Nat.log2_lt h0).mpr hx
    rw [Nat.log2_eq_log_two] at hlt ⊢
    omega

theorem padmeShift_le_log (len : ℕ) : padmeShift len ≤ Nat.log 2 len := by
  unfold padmeShift
  omega

theorem padmeShift_le {len : ℕ} (hlen : len < 2 ^ 64) : padmeShift len ≤ 57 := by
  have he : Nat.log 2 len < 64 := Nat.log_lt_of_lt_pow' (by decide) hlen
  unfold padmeShift
  by_cases hbig : 32 ≤ Nat.log 2 len
  · have ht : 5 ≤ Nat.log 2 (Nat.log 2 len) := Nat.le_log_of_pow_le Nat.one_lt_two hbig
    omega
  · omega

/-- Where the masked sum does not wrap, Padmé rounds up to a multiple of `2 ^ padmeShift`. -/
theorem padmeLen_eq {len : ℕ} (hlen : len + 2 ^ 57 ≤ 2 ^ 64) :
    padmeLen len = roundUp len (2 ^ padmeShift len) := by
  have h64 : len < 2 ^ 64 := by omega
  have he : 63 - leadingZeros len = Nat.log 2 len := sub_leadingZeros h64
  have hs : 63 - leadingZeros (Nat.log 2 len) = Nat.log 2 (Nat.log 2 len) :=
    sub_leadingZeros ((Nat.log_le_self 2 len).trans_lt h64)
  have hz := padmeShift_le h64
  have hfit : len + (2 ^ padmeShift len - 1) < 2 ^ 64 := by
    have : 2 ^ padmeShift len ≤ 2 ^ 57 := Nat.pow_le_pow_right Nat.two_pos hz
    omega
  simp only [padmeLen, he, hs, Nat.one_shiftLeft, usizeMax]
  exact add_land_xor_eq_roundUp hfit (by omega)

section Laws

variable {len : ℕ}

theorem padmeLen_zero : padmeLen 0 = 0 := by
  rw [padmeLen_eq (by decide)]
  exact roundUp_eq_self (Nat.two_pow_pos _) (Nat.dvd_zero _)

theorem le_padmeLen (hlen : len + 2 ^ 57 ≤ 2 ^ 64) : len ≤ padmeLen len := by
  rw [padmeLen_eq hlen]
  exact le_roundUp (Nat.two_pow_pos _)

theorem dvd_padmeLen (hlen : len + 2 ^ 57 ≤ 2 ^ 64) : 2 ^ padmeShift len ∣ padmeLen len := by
  rw [padmeLen_eq hlen]
  exact dvd_roundUp _ _

theorem padmeLen_sub_lt (hlen : len + 2 ^ 57 ≤ 2 ^ 64) : padmeLen len - len < 2 ^ padmeShift len := by
  rw [padmeLen_eq hlen]
  exact roundUp_sub_lt (Nat.two_pow_pos _)

theorem padmeLen_le_two_pow (hlen : len + 2 ^ 57 ≤ 2 ^ 64) :
    padmeLen len ≤ 2 ^ (Nat.log 2 len + 1) := by
  rw [padmeLen_eq hlen]
  apply roundUp_le (Nat.two_pow_pos _) (Nat.lt_pow_succ_log_self Nat.one_lt_two len).le
  exact Nat.pow_dvd_pow 2 ((padmeShift_le_log len).trans (Nat.le_succ _))

theorem padmeShift_congr {len len' : ℕ} (h : Nat.log 2 len = Nat.log 2 len') :
    padmeShift len = padmeShift len' := by
  unfold padmeShift
  rw [h]

theorem padmeLen_two_pow {k : ℕ} (hk : k ≤ 63) : padmeLen (2 ^ k) = 2 ^ k := by
  have hfit : 2 ^ k + 2 ^ 57 ≤ 2 ^ 64 := by
    have : 2 ^ k ≤ 2 ^ 63 := Nat.pow_le_pow_right Nat.two_pos hk
    omega
  rw [padmeLen_eq hfit]
  apply roundUp_eq_self (Nat.two_pow_pos _)
  apply Nat.pow_dvd_pow 2
  simpa [Nat.log_pow] using padmeShift_le_log (2 ^ k)

theorem padmeLen_padmeLen (hlen : len < 2 ^ 63) : padmeLen (padmeLen len) = padmeLen len := by
  have hfit : len + 2 ^ 57 ≤ 2 ^ 64 := by omega
  rcases Nat.eq_zero_or_pos len with rfl | hpos
  · rw [padmeLen_zero, padmeLen_zero]
  have hle := le_padmeLen hfit
  have hup := padmeLen_le_two_pow hfit
  have hlog : Nat.log 2 len < 63 := Nat.log_lt_of_lt_pow (by omega) hlen
  rcases Nat.lt_or_eq_of_le hup with hlt | heq
  · -- still below the next power of two: the same granularity, already a multiple of it
    have hL : Nat.log 2 (padmeLen len) = Nat.log 2 len :=
      Nat.log_eq_of_pow_le_of_lt_pow ((Nat.pow_log_le_self 2 (by omega)).trans hle) hlt
    have hLfit : padmeLen len + 2 ^ 57 ≤ 2 ^ 64 := by
      have : 2 ^ (Nat.log 2 len + 1) ≤ 2 ^ 63 := Nat.pow_le_pow_right Nat.two_pos hlog
      omega
    rw [padmeLen_eq hLfit, padmeShift_congr hL]
    exact roundUp_eq_self (Nat.two_pow_pos _) (dvd_padmeLen hfit)
  · -- rounded up to the next power of two, which is a fixed point
    rw [heq]
    exact padmeLen_two_pow hlog

theorem padmeLen_mono {len₂ : ℕ} (hlen₂ : len₂ + 2 ^ 57 ≤ 2 ^ 64) (h : len ≤ len₂) :
    padmeLen len ≤ padmeLen len₂ := by
  have hfit : len + 2 ^ 57 ≤ 2 ^ 64 := by omega
  rcases Nat.lt_or_eq_of_le (Nat.log_mono_right (b := 2) h) with hlt | heq
  · -- a smaller exponent: the next power of two separates the two
    calc padmeLen len ≤ 2 ^ (Nat.log 2 len + 1) := padmeLen_le_two_pow hfit
      _ ≤ 2 ^ Nat.log 2 len₂ := Nat.pow_le_pow_right Nat.two_pos hlt
      _ ≤ len₂ := Nat.pow_log_le_self 2 (by rintro rfl; simp at hlt)
      _ ≤ padmeLen len₂ := le_padmeLen hlen₂
  · rw [padmeLen_eq hfit, padmeLen_eq hlen₂, padmeShift_congr heq]
    exact roundUp_mono (Nat.two_pow_pos _) h

/-- The overhead is at most `len / 2 ^ (s - 1)` for `s = ⌊log₂ ⌊log₂ len⌋⌋ + 1`. -/
theorem padmePaddingLen_le (hlen : len + 2 ^ 57 ≤ 2 ^ 64) :
    padmePaddingLen len ≤ len / 2 ^ Nat.log 2 (Nat.log 2 len) := by
  have hsub := padmeLen_sub_lt hlen
  unfold padmePaddingLen
  rcases Nat.eq_zero_or_pos (padmeShift len) with hz | hz
  · rw [hz, Nat.pow_zero, Nat.lt_one_iff] at hsub
    rw [hsub]
    exact Nat.zero_le _
  have hsplit : padmeShift len + Nat.log 2 (Nat.log 2 len) ≤ Nat.log 2 len := by
    unfold padmeShift at hz ⊢
    omega
  have hmul : 2 ^ padmeShift len * 2 ^ Nat.log 2 (Nat.log 2 len) ≤ len := by
    rw [← Nat.pow_add]
    exact (Nat.pow_le_pow_right Nat.two_pos hsplit).trans
      (Nat.pow_log_le_self 2 (by rintro rfl; simp [padmeShift] at hz))
  have hdiv : 2 ^ padmeShift len ≤ len / 2 ^ Nat.log 2 (Nat.log 2 len) :=
    (Nat.le_div_iff_mul_le (Nat.two_pow_pos _)).mpr hmul
  omega

end Laws

/-- The Padmé laws on lengths below `2 ^ 63`, and the fixed points at the powers of two. -/
theorem padmeLen_laws :
    (∀ len < 2 ^ 63,
      len ≤ padmeLen len ∧
      padmeLen (padmeLen len) = padmeLen len ∧
      (∀ len₂ < 2 ^ 63, len ≤ len₂ → padmeLen len ≤ padmeLen len₂) ∧
      padmeLen len % 2 ^ padmeShift len = 0 ∧
      padmeLen len - len < 2 ^ padmeShift len ∧
      padmePaddingLen len ≤ len / 2 ^ (Nat.log 2 (Nat.log 2 len) + 1 - 1)) ∧
    ∀ k ≤ 63, padmeLen (2 ^ k) = 2 ^ k := by
  refine ⟨fun len hlen => ?_, fun k hk => padmeLen_two_pow hk⟩
  have hfit : len + 2 ^ 57 ≤ 2 ^ 64 := by omega
  refine ⟨le_padmeLen hfit, padmeLen_padmeLen hlen, fun len₂ hlen₂ h => ?_,
    Nat.mod_eq_zero_of_dvd (dvd_padmeLen hfit), padmeLen_sub_lt hfit, ?_⟩
  · exact padmeLen_mono (by omega) h
  · simpa using padmePaddingLen_le hfit

theorem padmeLen_laws_hundred :
    100 ≤ padmeLen 100 ∧ padmeLen (padmeLen 100) = padmeLen 100 ∧ padmeLen (2 ^ 10) = 2 ^ 10 :=
  ⟨(padmeLen_laws.1 100 (by decide)).1, (padmeLen_laws.1 100 (by decide)).2.1,
    padmeLen_laws.2 10 (by decide)⟩

example : padmeLen 100 = 104 ∧ padmeLen 129 = 144 ∧ padmePaddingLen 17 = 1 := by decide

end Air
