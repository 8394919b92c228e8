import Mathlib.Data.List.DropRight
import Reiver.Lib.Int64
import Reiver.Lib.Rounding
import Reiver.Lib.LengthPrefixed

/-! The integers among the numbers of Lua. A number is a double, its text has 14 digits (`%.14g`), and a text is read
    with its fraction and its exponent. -/

namespace Reiver

def toDoubleInt (i : Int) : Int := if i < 0 then -(toDouble i.natAbs : Int) else toDouble i.toNat

/-- The text of digits in exponent notation, without the zeros at the end of the fraction. -/
def scientificChars : List Char → List Char
  | [] => []
  | lead :: rest =>
    let fraction := rest.rdropWhile (· = '0')
    lead :: (if fraction = [] then [] else '.' :: fraction) ++ 'e' :: '+' :: (zeroPad 2 rest.length).toList

/-- `%.14g` of an integer. -/
def formatG14 (i : Int) : String :=
  if i.natAbs < 10 ^ 14 then toString i
  else String.ofList ((if i < 0 then ['-'] else []) ++ scientificChars (Nat.toDigits 10 (toDigits 14 i.natAbs)))

/-- What an exponent says, if the text after the fraction is empty or an exponent. -/
def parseExponent : List Char → Option Int
  | [] => some 0
  | 'e' :: '+' :: cs => (parseDigits cs).map fun n : Nat => (n : Int)
  | 'e' :: '-' :: cs => (parseDigits cs).map fun n : Nat => -(n : Int)
  | 'e' :: cs => (parseDigits cs).map fun n : Nat => (n : Int)
  | _ => none

/-- The digits of a fraction, and the text after it. -/
def splitFraction : List Char → List Char × List Char
  | '.' :: cs => (cs.takeWhile (·.isDigit), cs.dropWhile (·.isDigit))
  | cs => ([], cs)

/-- `n · 10^exponent`, if it is an integer. -/
def shifted (n : Nat) (exponent : Int) : Option Nat :=
  if 0 ≤ exponent then some (n * 10 ^ exponent.toNat)
  else if 10 ^ (-exponent).toNat ∣ n then some (n / 10 ^ (-exponent).toNat)
  else none

/-- The integer that a text without a sign writes, if it writes one. -/
def parseMagnitude (cs : List Char) : Option Nat :=
  let whole := cs.takeWhile (·.isDigit)
  let (fraction, tail) := splitFraction (cs.dropWhile (·.isDigit))
  if whole ++ fraction = [] then none
  else
    (parseExponent tail).bind fun exponent =>
      shifted (Nat.ofDigitChars 10 (whole ++ fraction) 0) (exponent - fraction.length)

/-- `tonumber` of the text of an integer. -/
def tonumber (s : String) : Option Int :=
  match s.toList with
  | '-' :: cs => (parseMagnitude cs).map fun n : Nat => toDoubleInt (-(n : Int))
  | cs => (parseMagnitude cs).map fun n : Nat => toDoubleInt n

section
variable {n : Nat} {i : Int} {cs : List Char}

theorem toDoubleInt_of_lt (h : i.natAbs < 2 ^ 53) : toDoubleInt i = i := by
  rw [toDoubleInt]
  split
  · rw [toDouble_of_lt h]
    omega
  · rw [toDouble_of_lt (by omega)]
    omega

theorem formatG14_of_lt (h : i.natAbs < 10 ^ 14) : formatG14 i = toString i := if_pos h

theorem toDigits_all_isDigit (n : Nat) : ∀ c ∈ Nat.toDigits 10 n, c.isDigit = true := fun _ hc =>
  Nat.isDigit_of_mem_toDigits (by decide) (by decide) hc

theorem takeWhile_digits_append {digits tail : List Char} (hdigits : ∀ c ∈ digits, c.isDigit = true)
    (htail : ∀ c ∈ tail.head?, c.isDigit = false) :
    (digits ++ tail).takeWhile (·.isDigit) = digits ∧ (digits ++ tail).dropWhile (·.isDigit) = tail := by
  rw [List.takeWhile_append_of_pos hdigits, List.dropWhile_append_of_pos hdigits]
  cases tail with
  | nil => exact ⟨List.append_nil _, rfl⟩
  | cons c cs =>
    have hc : ¬ c.isDigit = true := by rw [htail c rfl]; decide
    rw [List.takeWhile_cons_of_neg hc, List.dropWhile_cons_of_neg hc, List.append_nil]
    exact ⟨rfl, rfl⟩

theorem parseMagnitude_append {whole rest : List Char} (hne : whole ≠ [])
    (hwhole : ∀ c ∈ whole, c.isDigit = true) (hrest : ∀ c ∈ rest.head?, c.isDigit = false) :
    parseMagnitude (whole ++ rest) = (parseExponent (splitFraction rest).2).bind fun exponent =>
      shifted (Nat.ofDigitChars 10 (whole ++ (splitFraction rest).1) 0) (exponent - (splitFraction rest).1.length) := by
  obtain ⟨htake, hdrop⟩ := takeWhile_digits_append hwhole hrest
  rw [parseMagnitude, htake, hdrop]
  exact if_neg fun h => hne (List.append_eq_nil_iff.mp h).1

theorem shifted_of_nonneg (n k : Nat) : shifted n k = some (n * 10 ^ k) := by
  rw [shifted, if_pos (Int.natCast_nonneg k), Int.toNat_natCast]

theorem parseMagnitude_toDigits (n : Nat) : parseMagnitude (Nat.toDigits 10 n) = some n := by
  have hread := @parseMagnitude_append _ [] Nat.toDigits_ne_nil (toDigits_all_isDigit n) (fun c hc => by cases hc)
  rw [List.append_nil] at hread
  rw [hread]
  dsimp only [splitFraction, parseExponent]
  rw [Option.bind_some, List.append_nil, List.length_nil, Nat.ofDigitChars_ten_toDigits]
  exact (shifted_of_nonneg n 0).trans (congrArg some (Nat.mul_one n))

theorem tonumber_toString (i : Int) : tonumber (toString i) = some (toDoubleInt i) := by
  rw [tonumber]
  cases i with
  | ofNat n =>
    have hlist : (toString (Int.ofNat n)).toList = Nat.toDigits 10 n := toList_toString_nat n
    rw [hlist]
    split
    · next cs hcs => exact absurd (toDigits_all_isDigit n _ (hcs ▸ List.mem_cons_self)) (by decide)
    · rw [parseMagnitude_toDigits]
      rfl
  | negSucc n =>
    have hneg : toString (Int.negSucc n) = "-" ++ toString (n + 1) := rfl
    rw [hneg, String.toList_append, toList_toString_nat]
    show (parseMagnitude (Nat.toDigits 10 (n + 1))).map _ = _
    rw [parseMagnitude_toDigits]
    rfl

theorem e_mem_scientificChars (n : Nat) : 'e' ∈ scientificChars (Nat.toDigits 10 n) := by
  cases hcs : Nat.toDigits 10 n with
  | nil => exact absurd hcs Nat.toDigits_ne_nil
  | cons lead rest => exact List.mem_append_right _ List.mem_cons_self

theorem e_notMem_toString (i : Int) : 'e' ∉ (toString i).toList := by
  have hdigit : ∀ n, 'e' ∉ Nat.toDigits 10 n := fun n he => absurd (toDigits_all_isDigit n _ he) (by decide)
  cases i with
  | ofNat n =>
    have hlist : (toString (Int.ofNat n)).toList = Nat.toDigits 10 n := toList_toString_nat n
    rw [hlist]
    exact hdigit n
  | negSucc n =>
    have hneg : toString (Int.negSucc n) = "-" ++ toString (n + 1) := rfl
    rw [hneg, String.toList_append, toList_toString_nat]
    intro he
    rcases List.mem_append.mp he with hsign | hmem
    · exact absurd hsign (by decide)
    · exact hdigit _ hmem

theorem formatG14_eq_toString_iff : formatG14 i = toString i ↔ i.natAbs < 10 ^ 14 := by
  refine ⟨fun h => ?_, formatG14_of_lt⟩
  by_contra hbig
  refine e_notMem_toString i ?_
  rw [← h, formatG14, if_neg hbig, String.toList_ofList]
  exact List.mem_append_right _ (e_mem_scientificChars _)

end

end Reiver
