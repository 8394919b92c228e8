import Mathlib.Data.List.Basic
import Mathlib.Data.String.Basic
import Mathlib.Order.Basic

/-! The ranges of the signed machine integers, over the integers they hold. -/

namespace Reiver

def int64Min : Int := -9223372036854775808

def int64Max : Int := 9223372036854775807

def InInt64 (v : Int) : Prop := int64Min ≤ v ∧ v ≤ int64Max

def InInt32 (v : Int) : Prop := -2147483648 ≤ v ∧ v ≤ 2147483647

instance (v : Int) : Decidable (InInt64 v) := inferInstanceAs (Decidable (_ ∧ _))

instance (v : Int) : Decidable (InInt32 v) := inferInstanceAs (Decidable (_ ∧ _))

end Reiver

/-! Integers that are read from their decimal text. -/

namespace Reiver

/-- The value of decimal digits, if there are only digits. -/
def parseDigits (cs : List Char) : Option Nat :=
  if cs ≠ [] ∧ cs.all (·.isDigit) then some (Nat.ofDigitChars 10 cs 0) else none

/-- `str::parse::<i64>`. -/
def parseI64 (s : String) : Option Int64 :=
  let value : Option Int :=
    match s.toList with
    | '-' :: cs => (parseDigits cs).map fun n : Nat => -(n : Int)
    | '+' :: cs => (parseDigits cs).map fun n : Nat => (n : Int)
    | cs => (parseDigits cs).map fun n : Nat => (n : Int)
  value.bind fun i => if Int64.minValue.toInt ≤ i ∧ i ≤ Int64.maxValue.toInt then some (Int64.ofInt i) else none

theorem parseDigits_toDigits (n : Nat) : parseDigits (Nat.toDigits 10 n) = some n := by
  have hne : Nat.toDigits 10 n ≠ [] := Nat.toDigits_ne_nil
  have hall : (Nat.toDigits 10 n).all (·.isDigit) = true :=
    List.all_eq_true.mpr fun c hc => Nat.isDigit_of_mem_toDigits (by decide) (by decide) hc
  rw [parseDigits, if_pos ⟨hne, hall⟩, Nat.ofDigitChars_ten_toDigits]

theorem toList_toString_nat (n : Nat) : (toString n).toList = Nat.toDigits 10 n := by
  rw [Nat.toString_eq_repr, Nat.toList_repr]

theorem parseI64_toString (v : Int64) : parseI64 (toString v.toInt) = some v := by
  have hrange : Int64.minValue.toInt ≤ v.toInt ∧ v.toInt ≤ Int64.maxValue.toInt := ⟨v.minValue_le_toInt, v.toInt_le⟩
  rw [parseI64]
  cases hv : v.toInt with
  | ofNat n =>
    have hlist : (toString (Int.ofNat n)).toList = Nat.toDigits 10 n := toList_toString_nat n
    have hdigits := parseDigits_toDigits n
    rw [hlist]
    split
    · next cs hcs =>
      have hmem : '-' ∈ Nat.toDigits 10 n := hcs ▸ List.mem_cons_self
      exact absurd (Nat.isDigit_of_mem_toDigits (by decide) (by decide) hmem) (by decide)
    · next cs hcs =>
      have hmem : '+' ∈ Nat.toDigits 10 n := hcs ▸ List.mem_cons_self
      exact absurd (Nat.isDigit_of_mem_toDigits (by decide) (by decide) hmem) (by decide)
    · have hvalue : (n : Int) = v.toInt := hv.symm
      rw [hdigits, Option.map_some, Option.bind_some, hvalue, if_pos hrange]
      exact congrArg some (Int64.ofInt_toInt v)
  | negSucc n =>
    have hlist : (toString (Int.negSucc n)).toList = '-' :: Nat.toDigits 10 (n + 1) := by
      have hneg : toString (Int.negSucc n) = "-" ++ toString (n + 1) := rfl
      rw [hneg, String.toList_append, toList_toString_nat]
      rfl
    rw [hlist]
    show ((parseDigits (Nat.toDigits 10 (n + 1))).map fun n : Nat => -(n : Int)).bind _ = _
    rw [parseDigits_toDigits, Option.map_some, Option.bind_some]
    have hvalue : -((n + 1 : Nat) : Int) = v.toInt := hv ▸ rfl
    rw [hvalue, if_pos hrange]
    exact congrArg some (Int64.ofInt_toInt v)

end Reiver
