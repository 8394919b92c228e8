import Mathlib.Algebra.Group.Nat.Defs
import Mathlib.Data.Nat.Log

/-! Rounding of natural numbers to multiples of a unit, and to the 53 binary digits of a double. -/

namespace Reiver

/-- The multiple of `unit` nearest to `n`; of two, the even one. -/
def roundHalfEven (unit n : Nat) : Nat :=
  let quotient := n / unit
  let rest := n % unit
  if 2 * rest < unit ∨ 2 * rest = unit ∧ quotient % 2 = 0 then quotient * unit else (quotient + 1) * unit

def toDouble (n : Nat) : Nat := roundHalfEven (2 ^ (n.log2 - 52)) n

/-- A number to its leading `digits` decimal digits. -/
def toDigits (digits n : Nat) : Nat := roundHalfEven (10 ^ (Nat.log 10 n + 1 - digits)) n

section Rounding
variable {unit m n : Nat}

theorem roundHalfEven_one : roundHalfEven 1 n = n := by
  rw [roundHalfEven]
  rw [Nat.mod_one, if_pos (.inl Nat.one_pos), Nat.div_one, Nat.mul_one]

theorem le_roundHalfEven (hdvd : unit ∣ m) (hle : m ≤ n) : m ≤ roundHalfEven unit n := by
  obtain ⟨k, rfl⟩ := hdvd
  have hround : n / unit * unit ≤ roundHalfEven unit n := by
    rw [roundHalfEven]
    split
    · exact Nat.le_refl _
    · exact Nat.mul_le_mul_right _ (Nat.le_succ _)
  refine Nat.le_trans ?_ hround
  rcases Nat.eq_zero_or_pos unit with rfl | hpos
  · rw [Nat.zero_mul]
    exact Nat.zero_le _
  · rw [Nat.mul_comm unit k]
    exact Nat.mul_le_mul_right _ ((Nat.le_div_iff_mul_le hpos).mpr (Nat.mul_comm unit k ▸ hle))

theorem toDouble_of_lt (h : n < 2 ^ 53) : toDouble n = n := by
  have hlog : n.log2 - 52 = 0 := by
    rcases Nat.eq_zero_or_pos n with rfl | hpos
    · rfl
    · have hlog := (Nat.log2_lt (Nat.pos_iff_ne_zero.mp hpos)).mpr h
      omega
  rw [toDouble, hlog, Nat.pow_zero, roundHalfEven_one]

theorem le_toDouble (h : 2 ^ 53 ≤ n) : 2 ^ 53 ≤ toDouble n := by
  have hne : n ≠ 0 := by
    intro h0
    rw [h0] at h
    exact absurd h (by decide)
  have hlog : 53 ≤ n.log2 := (Nat.le_log2 hne).mpr h
  have hpow : 2 ^ n.log2 ≤ n := Nat.log2_self_le hne
  refine (Nat.pow_le_pow_right Nat.two_pos hlog).trans (le_roundHalfEven ?_ hpow)
  exact Nat.pow_dvd_pow 2 (Nat.sub_le _ _)

end Rounding

end Reiver
