import Reiver.Core.Billing.Credits
import Reiver.Lib.Binary64
import Reiver.Lib.Int64
import Reiver.Lib.LuaNumber

/-! # The deduction script

`deduct_credits_redis` and its script `LUA_DEDUCT` on the texts that the key of a balance holds. A balance below 10¹⁴
units is stored as its numeral; from there on the script prints the exponent, which is read by the next deduction, but
not by `GET` and `INCRBY`. -/

namespace Reiver.Core.DeductScript

structure Decimal where
  mantissa : Int
  scale : Nat
  mantissa_lt : mantissa.natAbs < 2 ^ 96
  scale_le : scale ≤ 28

def Decimal.value (d : Decimal) : ℚ := d.mantissa / 10 ^ d.scale

/-- What a script leaves in the key and returns. A script that raises an error returns nothing. -/
structure ScriptRun where
  key : Option String
  reply : Option Int
deriving DecidableEq

/-- `LUA_DEDUCT`. -/
def luaDeductText (key : Option String) (arg : String) : ScriptRun :=
  match tonumber (key.getD "0"), tonumber arg with
  | some bal, some cost =>
    if bal < cost then ⟨key, some (-1)⟩ else ⟨some (formatG14 (toDoubleInt (bal - cost))), some 1⟩
  | _, _ => ⟨key, none⟩

/-- `INCRBY`, which takes the numeral of an `i64` only, and no sum that is none. -/
def incrByText (text : String) (amount : Int) : Option String :=
  (parseI64 text).bind fun v =>
    if toString v.toInt = text ∧ InInt64 (v.toInt + amount) then some (toString (v.toInt + amount)) else none

/-- The cost in the unit of the key, zero where an `i64` cannot hold it. There is none where 96 digits cannot hold the
    product, whose multiplication panics. -/
def scaledCost (costUsd : Decimal) : Option Int :=
  let product := costUsd.value * 10 ^ 8
  if |product| < 2 ^ 96 then
    let rounded := nearestInt product
    some (if InInt64 rounded then rounded else 0)
  else none

/-! ### The script -/

section
variable {key : Option String} {b c : Int}

theorem luaDeductText_eq (hkey : key.getD "0" = toString b) (hb : b.natAbs < 2 ^ 53) (hc : 0 < c)
    (hc' : c.natAbs < 2 ^ 53) : luaDeductText key (toString c) =
      if b < c then ⟨key, some (-1)⟩ else ⟨some (formatG14 (b - c)), some 1⟩ := by
  rw [luaDeductText, hkey, tonumber_toString, tonumber_toString, toDoubleInt_of_lt hb, toDoubleInt_of_lt hc']
  dsimp only
  split
  · rfl
  · rw [toDoubleInt_of_lt (by omega)]

/-- The text is the numeral of a number, and every reader of the key sees that number. -/
structure Sees (text : String) (n : Int) : Prop where
  numeral : text = toString n
  get : (parseI64 text).map (·.toInt) = some n
  incrBy : ∀ amount, InInt64 (n + amount) → incrByText text amount = some (toString (n + amount))
  deduct : tonumber text = some n

theorem sees_toString {n : Int} (hn : n.natAbs < 2 ^ 53) : Sees (toString n) n := by
  have hvalue : (Int64.ofInt n).toInt = n := Int64.toInt_ofInt_of_le (by omega) (by omega)
  have hparse : parseI64 (toString n) = some (Int64.ofInt n) := by
    have hread := parseI64_toString (Int64.ofInt n)
    rwa [hvalue] at hread
  refine ⟨rfl, ?_, fun amount hamount => ?_, ?_⟩
  · rw [hparse, Option.map_some, hvalue]
  · rw [incrByText, hparse, Option.bind_some, hvalue, if_pos ⟨rfl, hamount⟩]
  · rw [tonumber_toString, toDoubleInt_of_lt hn]

/-- The script is exact integer arithmetic on a balance and a cost. -/
structure ExactDeduction (key : Option String) (b c : Int) : Prop where
  refuses : (luaDeductText key (toString c)).reply = some (-1) ↔ b < c
  unchanged : b < c → (luaDeductText key (toString c)).key = key
  stores : ¬ b < c → ∃ text, (luaDeductText key (toString c)).key = some text ∧ Sees text (b - c)

theorem exactDeduction_iff (hkey : key.getD "0" = toString b) (hb : b.natAbs < 2 ^ 53) (hc : 0 < c)
    (hc' : c.natAbs < 2 ^ 53) : ExactDeduction key b c ↔ b < c ∨ b - c < 10 ^ 14 := by
  have hrun := luaDeductText_eq hkey hb hc hc'
  by_cases hlow : b < c
  · rw [if_pos hlow] at hrun
    refine ⟨fun _ => .inl hlow, fun _ => ⟨?_, fun _ => ?_, fun h => absurd hlow h⟩⟩
    · rw [hrun]
      exact ⟨fun _ => hlow, fun _ => rfl⟩
    · rw [hrun]
  · rw [if_neg hlow] at hrun
    constructor
    · intro h
      obtain ⟨text, htext, hsees⟩ := h.stores hlow
      rw [hrun, Option.some_inj] at htext
      have hnumeral := formatG14_eq_toString_iff.mp (htext.trans hsees.numeral)
      exact .inr (by omega)
    · intro h
      have hsmall : b - c < 10 ^ 14 := h.resolve_left hlow
      refine ⟨?_, fun h => absurd h hlow, fun _ => ⟨toString (b - c), ?_, sees_toString (by omega)⟩⟩
      · rw [hrun]
        exact ⟨fun h => absurd (Option.some_inj.mp h) (by decide), fun h => absurd h hlow⟩
      · rw [hrun, formatG14_of_lt (by omega)]

end

/-! ### The values of an account -/

/-! ### The cost -/

theorem scaledCost_pos_iff {costUsd : Decimal} (hpos : 0 < costUsd.value) :
    (∃ cost, scaledCost costUsd = some cost ∧ 0 < cost) ↔
      1 / 2 < costUsd.value * 10 ^ 8 ∧ costUsd.value * 10 ^ 8 < 2 ^ 63 - 1 / 2 := by
  obtain ⟨product, hproduct⟩ : ∃ q, costUsd.value * 10 ^ 8 = q := ⟨_, rfl⟩
  have hnonneg : 0 ≤ product := hproduct ▸ (mul_pos hpos (by norm_num)).le
  have hlow : 0 < nearestInt product ↔ 1 / 2 < product := by
    have h := nearestInt_le_even_iff (x := product) (n := 0) rfl
    rw [Int.cast_zero, zero_add] at h
    rw [← not_le, h, not_le]
  have hhigh : nearestInt product ≤ int64Max ↔ product < 2 ^ 63 - 1 / 2 := by
    rw [nearestInt_le_odd_iff rfl, int64Max]
    norm_num
  rw [scaledCost, hproduct, abs_of_nonneg hnonneg, ← hlow, ← hhigh]
  constructor
  · rintro ⟨cost, hcost, hcostpos⟩
    split at hcost
    · rw [Option.some_inj] at hcost
      split at hcost
      · next hrange => exact ⟨hcost ▸ hcostpos, hrange.2⟩
      · exact absurd hcostpos (by omega)
    · cases hcost
  · rintro ⟨hround, hfits⟩
    have hsmall : product < 2 ^ 96 := (hhigh.mp hfits).trans (by norm_num)
    have hrange : InInt64 (nearestInt product) := ⟨by rw [int64Min]; omega, hfits⟩
    refine ⟨nearestInt product, ?_, hround⟩
    rw [if_pos hsmall]
    exact congrArg some (if_pos hrange)

/-- A deduction is exact below 10¹⁴ units, and the cost of a call is charged from half a unit to what an `i64` holds. -/
theorem exact_iff {key : Option String} {b c : Int} {costUsd : Decimal} (hkey : key.getD "0" = toString b)
    (hb : b.natAbs < 2 ^ 53) (hc : 0 < c) (hc' : c.natAbs < 2 ^ 53) (hpos : 0 < costUsd.value) :
    (ExactDeduction key b c ↔ b < c ∨ b - c < 10 ^ 14) ∧
      ((∃ cost, scaledCost costUsd = some cost ∧ 0 < cost) ↔
        1 / 2 < costUsd.value * 10 ^ 8 ∧ costUsd.value * 10 ^ 8 < 2 ^ 63 - 1 / 2) :=
  ⟨exactDeduction_iff hkey hb hc hc', scaledCost_pos_iff hpos⟩

theorem exact_iff_small :
    (ExactDeduction (some (toString (5 : Int))) 5 3 ↔ (5 : Int) < 3 ∨ (5 : Int) - 3 < 10 ^ 14) ∧
      ((∃ cost, scaledCost ⟨25, 2, by decide, by decide⟩ = some cost ∧ 0 < cost) ↔
        1 / 2 < (⟨25, 2, by decide, by decide⟩ : Decimal).value * 10 ^ 8 ∧
          (⟨25, 2, by decide, by decide⟩ : Decimal).value * 10 ^ 8 < 2 ^ 63 - 1 / 2) :=
  exact_iff rfl (by decide) (by decide) (by decide) (by norm_num [Decimal.value])

/-- Two million dollars are printed with an exponent, and a billionth of a dollar costs nothing. -/
theorem not_exact :
    ¬ ExactDeduction (some (toString (200000000000001 : Int))) 200000000000001 1 ∧
      ¬ ∃ cost, scaledCost ⟨1, 9, by decide, by decide⟩ = some cost ∧ 0 < cost := by
  constructor
  · rw [exactDeduction_iff rfl (by decide) (by decide) (by decide)]
    decide
  · rw [scaledCost_pos_iff (by norm_num [Decimal.value])]
    norm_num [Decimal.value]

end Reiver.Core.DeductScript
