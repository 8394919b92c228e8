import Mathlib.Algebra.Order.Floor.Ring
import Mathlib.Algebra.Order.Round
import Mathlib.Data.Int.Log
import Mathlib.Data.Rat.Floor
import Mathlib.Order.WithBot
import Mathlib.Tactic.Linarith
import Mathlib.Tactic.NormNum
import Mathlib.Tactic.Ring

/-! Rounding to the doubles: 53 binary digits, of two nearest ones the even one, exponents from -1074 on, infinity from
    `2 ^ 1024` on. Rounding keeps the order. -/

namespace Reiver

/-- The rationals with an infinity at either end. -/
abbrev ExtRat := WithBot (WithTop ℚ)

/-- The nearest integer; of two, the even one. -/
def nearestInt (x : ℚ) : ℤ := if 2 * (x - ⌊x⌋) < 1 ∨ 2 * (x - ⌊x⌋) = 1 ∧ ⌊x⌋ % 2 = 0 then ⌊x⌋ else ⌊x⌋ + 1

def lastExponent (x : ℚ) : ℤ := max (-1074) (Int.log 2 x - 52)

def roundMagnitude (x : ℚ) : ℚ := nearestInt (x / 2 ^ lastExponent x) * 2 ^ lastExponent x

def doubleLimit : ℚ := 2 ^ 1024

def overflow (x : ℚ) : ExtRat :=
  if doubleLimit ≤ x then ⊤ else if x ≤ -doubleLimit then ⊥ else ((x : WithTop ℚ) : ExtRat)

def toBinary64 (x : ℚ) : ExtRat := overflow (if 0 ≤ x then roundMagnitude x else -roundMagnitude (-x))

def ExtRat.round : ExtRat → ExtRat
  | some (some x) => toBinary64 x
  | x => x

/-- The value of the 64 bits of a double, unless they are an infinity or no number. -/
def finiteOfBits (bits : Nat) : Option ℚ :=
  let sign : ℚ := if bits / 2 ^ 63 % 2 = 0 then 1 else -1
  let exponent : Nat := bits / 2 ^ 52 % 2 ^ 11
  let fraction : Nat := bits % 2 ^ 52
  if exponent = 2 ^ 11 - 1 then none
  else if exponent = 0 then some (sign * fraction * 2 ^ (-1074 : ℤ))
  else some (sign * (2 ^ 52 + fraction) * 2 ^ ((exponent : ℤ) - 1075))

/-- The value of the 64 bits of a double, unless they are no number. -/
def valueOfBits (bits : Nat) : Option ExtRat :=
  if bits / 2 ^ 52 % 2 ^ 11 = 2 ^ 11 - 1 then
    if bits % 2 ^ 52 = 0 then some (if bits / 2 ^ 63 % 2 = 0 then ⊤ else ⊥) else none
  else (finiteOfBits bits).map fun x : ℚ => ((x : WithTop ℚ) : ExtRat)

section Monotone
variable {x y : ℚ}

theorem nearestInt_intCast (n : ℤ) : nearestInt n = n := by
  rw [nearestInt, Int.floor_intCast, if_pos (Or.inl (by norm_num))]

theorem nearestInt_mono (h : x ≤ y) : nearestInt x ≤ nearestInt y := by
  have hfloor : ⌊x⌋ ≤ ⌊y⌋ := Int.floor_mono h
  rcases hfloor.lt_or_eq with hlt | heq
  · have hx : nearestInt x ≤ ⌊x⌋ + 1 := by rw [nearestInt]; split <;> omega
    have hy : ⌊y⌋ ≤ nearestInt y := by rw [nearestInt]; split <;> omega
    omega
  · rw [nearestInt, nearestInt, heq]
    split
    · split <;> omega
    · next hx =>
      refine (if_neg fun hy => hx ?_).ge
      rcases hy with hy | ⟨hy, heven⟩
      · exact Or.inl (by linarith)
      · rcases (show 2 * (x - ⌊y⌋) ≤ 1 by linarith).lt_or_eq with hlt | heq
        · exact Or.inl hlt
        · exact Or.inr ⟨heq, heven⟩

theorem le_nearestInt {n : ℤ} (h : (n : ℚ) ≤ x) : n ≤ nearestInt x := nearestInt_intCast n ▸ nearestInt_mono h

theorem nearestInt_le {n : ℤ} (h : x ≤ n) : nearestInt x ≤ n := nearestInt_intCast n ▸ nearestInt_mono h

theorem nearestInt_le_even_iff {n : ℤ} (hn : n % 2 = 0) : nearestInt x ≤ n ↔ x ≤ n + 1 / 2 := by
  refine ⟨fun h => ?_, fun h => ?_⟩
  · by_contra hx
    have hlt : (n : ℚ) ≤ x := by linarith
    rcases (Int.le_floor.mpr hlt).lt_or_eq with hfloor | hfloor
    · have hle : ((n + 1 : ℤ) : ℚ) ≤ x := Int.le_floor.mp hfloor
      have := le_nearestInt hle
      omega
    · rw [nearestInt, ← hfloor, if_neg] at h
      · omega
      · rintro (hhalf | ⟨hhalf, -⟩) <;> linarith
  · by_cases hlt : (n : ℚ) ≤ x
    · have hfloor : ⌊x⌋ = n := Int.floor_eq_iff.mpr ⟨hlt, by linarith⟩
      rw [nearestInt, hfloor, if_pos]
      rcases (show 2 * (x - n) ≤ 1 by linarith).lt_or_eq with hhalf | hhalf
      · exact Or.inl hhalf
      · exact Or.inr ⟨hhalf, hn⟩
    · exact nearestInt_le (le_of_not_ge hlt)

theorem nearestInt_le_odd_iff {n : ℤ} (hn : n % 2 = 1) : nearestInt x ≤ n ↔ x < n + 1 / 2 := by
  refine ⟨fun h => ?_, fun h => ?_⟩
  · by_contra hx
    have hlt : (n : ℚ) ≤ x := by linarith
    rcases (Int.le_floor.mpr hlt).lt_or_eq with hfloor | hfloor
    · have hle : ((n + 1 : ℤ) : ℚ) ≤ x := Int.le_floor.mp hfloor
      have := le_nearestInt hle
      omega
    · rw [nearestInt, ← hfloor, if_neg] at h
      · omega
      · rintro (hhalf | ⟨-, heven⟩)
        · linarith
        · omega
  · by_cases hlt : (n : ℚ) ≤ x
    · have hfloor : ⌊x⌋ = n := Int.floor_eq_iff.mpr ⟨hlt, by linarith⟩
      rw [nearestInt, hfloor, if_pos (Or.inl (by linarith))]
    · exact nearestInt_le (le_of_not_ge hlt)

theorem lastExponent_mono (hx : 0 < x) (h : x ≤ y) : lastExponent x ≤ lastExponent y :=
  max_le_max_left _ (Int.sub_le_sub_right (Int.log_mono_right hx h) _)

theorem roundMagnitude_nonneg (hx : 0 ≤ x) : 0 ≤ roundMagnitude x := by
  have hpos : (0 : ℚ) < 2 ^ lastExponent x := zpow_pos (by norm_num) _
  have hround : (0 : ℤ) ≤ nearestInt (x / 2 ^ lastExponent x) :=
    le_nearestInt (by rw [Int.cast_zero]; exact div_nonneg hx hpos.le)
  exact mul_nonneg (by exact_mod_cast hround) hpos.le

theorem roundMagnitude_zero : roundMagnitude 0 = 0 := by
  rw [roundMagnitude, zero_div, show (0 : ℚ) = ((0 : ℤ) : ℚ) from Int.cast_zero.symm, nearestInt_intCast, Int.cast_zero,
    zero_mul]

theorem roundMagnitude_le_pow (x : ℚ) : roundMagnitude x ≤ 2 ^ (lastExponent x + 53) := by
  have hlog : x < (2 : ℚ) ^ (Int.log 2 x + 1) := by exact_mod_cast Int.lt_zpow_succ_log_self (by norm_num : 1 < 2) x
  have hexp : Int.log 2 x + 1 ≤ 53 + lastExponent x := by
    have := le_max_right (-1074) (Int.log 2 x - 52)
    rw [lastExponent]
    omega
  have hle : x ≤ 2 ^ (53 + lastExponent x) := hlog.le.trans (zpow_le_zpow_right₀ (by norm_num) hexp)
  have hpos : (0 : ℚ) < 2 ^ lastExponent x := zpow_pos (by norm_num) _
  have hround : nearestInt (x / 2 ^ lastExponent x) ≤ 2 ^ 53 := nearestInt_le (by
    rw [div_le_iff₀ hpos]
    refine hle.trans_eq ?_
    rw [zpow_add₀ (by norm_num)]
    norm_num)
  calc roundMagnitude x ≤ ((2 ^ 53 : ℤ) : ℚ) * 2 ^ lastExponent x :=
        mul_le_mul_of_nonneg_right (by exact_mod_cast hround) hpos.le
    _ = 2 ^ (lastExponent x + 53) := by rw [zpow_add₀ (by norm_num)]; norm_num; ring

theorem pow_le_roundMagnitude (hx : 0 < x) (hexp : -1074 < lastExponent x) :
    2 ^ (lastExponent x + 52) ≤ roundMagnitude x := by
  have hlog : (2 : ℚ) ^ Int.log 2 x ≤ x := by exact_mod_cast Int.zpow_log_le_self (by norm_num : 1 < 2) hx
  have heq : lastExponent x + 52 = Int.log 2 x := by
    rw [lastExponent] at hexp ⊢
    omega
  have hpos : (0 : ℚ) < 2 ^ lastExponent x := zpow_pos (by norm_num) _
  have hround : 2 ^ 52 ≤ nearestInt (x / 2 ^ lastExponent x) := le_nearestInt (by
    rw [le_div_iff₀ hpos]
    refine Eq.trans_le ?_ (heq ▸ hlog)
    rw [zpow_add₀ (by norm_num)]
    norm_num
    ring)
  calc (2 : ℚ) ^ (lastExponent x + 52) = ((2 ^ 52 : ℤ) : ℚ) * 2 ^ lastExponent x := by
        rw [zpow_add₀ (by norm_num)]; norm_num; ring
    _ ≤ roundMagnitude x := mul_le_mul_of_nonneg_right (by exact_mod_cast hround) hpos.le

theorem roundMagnitude_mono (hx : 0 ≤ x) (h : x ≤ y) : roundMagnitude x ≤ roundMagnitude y := by
  rcases hx.lt_or_eq with hx | rfl
  · rcases (lastExponent_mono hx h).lt_or_eq with hlt | heq
    · have hlow : -1074 ≤ lastExponent x := le_max_left _ _
      calc roundMagnitude x ≤ 2 ^ (lastExponent x + 53) := roundMagnitude_le_pow x
        _ ≤ 2 ^ (lastExponent y + 52) := zpow_le_zpow_right₀ (by norm_num) (by omega)
        _ ≤ roundMagnitude y := pow_le_roundMagnitude (hx.trans_le h) (by omega)
    · rw [roundMagnitude, roundMagnitude, heq]
      have hpos : (0 : ℚ) < 2 ^ lastExponent y := zpow_pos (by norm_num) _
      have hround := nearestInt_mono (div_le_div_of_nonneg_right h hpos.le)
      exact mul_le_mul_of_nonneg_right (by exact_mod_cast hround) hpos.le
  · rw [roundMagnitude_zero]
    exact roundMagnitude_nonneg h

theorem doubleLimit_pos : 0 < doubleLimit := pow_pos (by norm_num) _

theorem overflow_mono (h : x ≤ y) : overflow x ≤ overflow y := by
  have hlimit := doubleLimit_pos
  unfold overflow
  split_ifs with hx hy hy' hx' hy hy' hy hy'
  · exact le_refl _
  · linarith
  · linarith
  · exact bot_le
  · exact bot_le
  · exact bot_le
  · exact le_top
  · linarith
  · exact WithBot.coe_le_coe.mpr (WithTop.coe_le_coe.mpr h)

theorem toBinary64_mono (h : x ≤ y) : toBinary64 x ≤ toBinary64 y := by
  refine overflow_mono ?_
  split_ifs with hx hy hy
  · exact roundMagnitude_mono hx h
  · linarith
  · have hx := roundMagnitude_nonneg (x := -x) (by linarith)
    have hy := roundMagnitude_nonneg hy
    linarith
  · exact neg_le_neg (roundMagnitude_mono (by linarith) (by linarith))

theorem ExtRat.round_mono : Monotone ExtRat.round := by
  intro x y h
  match x, y with
  | ⊥, _ => exact bot_le
  | some none, some none => exact le_refl _
  | some none, ⊥ => exact h
  | some none, some (some y) => exact absurd (WithBot.coe_le_coe.mp h) (WithTop.not_top_le_coe y)
  | some (some x), ⊥ => exact absurd h (WithBot.not_coe_le_bot _)
  | some (some x), some none => exact le_top
  | some (some x), some (some y) => exact toBinary64_mono (WithTop.coe_le_coe.mp (WithBot.coe_le_coe.mp h))

end Monotone

structure Double where
  value : ℚ
  exact : toBinary64 value = ((value : WithTop ℚ) : ExtRat)

section Bits
variable {bits : Nat} {x : ℚ}

theorem valueOfBits_of_finite (h : finiteOfBits bits = some x) :
    valueOfBits bits = some ((x : WithTop ℚ) : ExtRat) := by
  have hexp : ¬ bits / 2 ^ 52 % 2 ^ 11 = 2 ^ 11 - 1 := by
    intro hexp
    have hnone : finiteOfBits bits = none := if_pos hexp
    rw [hnone] at h
    cases h
  rw [valueOfBits, if_neg hexp, h, Option.map_some]

theorem valueOfBits_of_not_finite {v : ExtRat} (h : finiteOfBits bits = none) (hv : valueOfBits bits = some v) :
    v = ⊤ ∨ v = ⊥ := by
  rw [valueOfBits, h] at hv
  split at hv
  · split at hv
    · have hv := Option.some_inj.mp hv
      split at hv
      · exact .inl hv.symm
      · exact .inr hv.symm
    · cases hv
  · cases hv

end Bits

end Reiver
