import Mathlib.Algebra.Order.Field.Basic
import Mathlib.Data.Set.Basic
import Mathlib.Data.Rat.Defs
import Mathlib.Algebra.Order.Ring.Rat
import Mathlib.Tactic.Linarith
import Mathlib.Tactic.NormNum
import Mathlib.Tactic.Positivity
import Reiver.Pond.Coercion

/-! # The values of a type

What a column of a type can hold: numbers, texts, bytes, dates, times of the day, instants, durations and lists of them,
each within the bounds of the type. -/

namespace Reiver.Pond

inductive Datum where
  | bool (b : Bool)
  | number (q : ℚ)
  /-- The infinities of the floats and what is no number: `inf`, `-inf`, `NaN`. -/
  | noNumber (name : String)
  | text (s : String)
  | bytes (bs : List UInt8)
  /-- Days since the epoch. -/
  | date (days : ℚ)
  /-- Seconds since midnight. -/
  | time (seconds : ℚ)
  /-- Seconds since the epoch. -/
  | instant (seconds : ℚ)
  /-- A clock's reading without a zone. -/
  | reading (seconds : ℚ)
  | duration (seconds : ℚ)
  | list (items : List (Option Datum))
  | other (display : String) (code : Nat)

def TimeUnit.seconds (u : TimeUnit) : ℚ := 1 / 1000 ^ u.rank

def InI64 (i : ℤ) : Prop := -2 ^ 63 ≤ i ∧ i < 2 ^ 63

def signedIntegers (bits : Nat) : Set Datum := {d | ∃ i : ℤ, -2 ^ (bits - 1) ≤ i ∧ i < 2 ^ (bits - 1) ∧ d = .number i}

def unsignedIntegers (bits : Nat) : Set Datum := {d | ∃ i : ℤ, 0 ≤ i ∧ i < 2 ^ bits ∧ d = .number i}

/-- The floats of so many binary digits and of exponents in a range. -/
def floats (digits : Nat) (lo hi : ℤ) : Set Datum :=
  {d | (∃ name ∈ ["inf", "-inf", "NaN"], d = .noNumber name) ∨
    ∃ m e : ℤ, |m| < 2 ^ digits ∧ lo ≤ e ∧ e ≤ hi ∧ d = .number (m * 2 ^ e)}

def decimals (precision : Nat) (scale : ℤ) : Set Datum :=
  {d | ∃ m : ℤ, |m| < 10 ^ precision ∧ d = .number (m * 10 ^ (-scale))}

def texts (limit : Nat) : Set Datum := {d | ∃ s : String, s.utf8ByteSize ≤ limit ∧ d = .text s}

def byteStrings (limit : Nat) : Set Datum := {d | ∃ bs : List UInt8, bs.length ≤ limit ∧ d = .bytes bs}

def timesOfDay (unit : TimeUnit) : Set Datum :=
  {d | ∃ i : ℤ, 0 ≤ i ∧ i * unit.seconds < 86400 ∧ d = .time (i * unit.seconds)}

def counted (make : ℚ → Datum) (unit : TimeUnit) : Set Datum := {d | ∃ i, InI64 i ∧ d = make (i * unit.seconds)}

def listsOf (limit : Nat) (items : Set (Option Datum)) : Set Datum :=
  {d | ∃ xs : List (Option Datum), xs.length ≤ limit ∧ (∀ x ∈ xs, x ∈ items) ∧ d = .list xs}

def maxI32 : Nat := 2 ^ 31 - 1

def maxI64 : Nat := 2 ^ 63 - 1

mutual

def ArrowType.values : ArrowType → Set Datum
  | .boolean => {d | ∃ b, d = .bool b}
  | .int8 => signedIntegers 8
  | .int16 => signedIntegers 16
  | .int32 => signedIntegers 32
  | .int64 => signedIntegers 64
  | .uint8 => unsignedIntegers 8
  | .uint16 => unsignedIntegers 16
  | .uint32 => unsignedIntegers 32
  | .uint64 => unsignedIntegers 64
  | .float16 => floats 11 (-24) 5
  | .float32 => floats 24 (-149) 104
  | .float64 => floats 53 (-1074) 971
  | .utf8 => texts maxI32
  | .largeUtf8 => texts maxI64
  | .binary => byteStrings maxI32
  | .largeBinary => byteStrings maxI64
  | .date32 => {d | ∃ i : ℤ, -2 ^ 31 ≤ i ∧ i < 2 ^ 31 ∧ d = .date i}
  | .date64 => {d | ∃ i : ℤ, InI64 i ∧ d = .date (i / 86400000)}
  | .time32 unit | .time64 unit => timesOfDay unit
  | .timestamp unit none => counted .reading unit
  | .timestamp unit (some _) => counted .instant unit
  | .duration unit => counted .duration unit
  | .decimal128 precision scale | .decimal256 precision scale => decimals precision.toNat scale.toInt
  | .fixedSizeBinary size => {d | ∃ bs : List UInt8, bs.length = size.toInt ∧ d = .bytes bs}
  | .list item => listsOf maxI32 item.cells
  | .largeList item => listsOf maxI64 item.cells
  | .fixedSizeList item size => {d | ∃ xs, (xs.length : ℤ) = size.toInt ∧ (∀ x ∈ xs, x ∈ item.cells) ∧ d = .list xs}
  | .map entries _ => listsOf maxI32 (entries.cells \ {none})
  | .struct fields => {d | ∃ xs, xs ∈ structRows fields ∧ d = .list xs}
  | .unsupported display => {d | ∃ code, d = .other display code}

/-- The values of a field, null where it allows it. -/
def ArrowField.cells : ArrowField → Set (Option Datum)
  | .new _ dataType nullable => {x | (x = none ∧ nullable = true) ∨ ∃ d ∈ dataType.values, x = some d}

def structRows : List ArrowField → Set (List (Option Datum))
  | [] => {[]}
  | field :: fields => {xs | ∃ x ∈ field.cells, ∃ ys ∈ structRows fields, xs = x :: ys}

end

/-! ### Types within types -/

theorem signedIntegers_subset {a b : Nat} (h : a ≤ b) : signedIntegers a ⊆ signedIntegers b := by
  rintro d ⟨i, hlo, hhi, rfl⟩
  have hpow : (2 : ℤ) ^ (a - 1) ≤ 2 ^ (b - 1) := pow_le_pow_right₀ (by norm_num) (by omega)
  exact ⟨i, by linarith, by linarith, rfl⟩

theorem unsignedIntegers_subset {a b : Nat} (h : a ≤ b) : unsignedIntegers a ⊆ unsignedIntegers b := by
  rintro d ⟨i, hlo, hhi, rfl⟩
  exact ⟨i, hlo, hhi.trans_le (pow_le_pow_right₀ (by norm_num) h), rfl⟩

theorem unsignedIntegers_subset_signed {a b : Nat} (h : a < b) : unsignedIntegers a ⊆ signedIntegers b := by
  rintro d ⟨i, hlo, hhi, rfl⟩
  have hpow : (2 : ℤ) ^ a ≤ 2 ^ (b - 1) := pow_le_pow_right₀ (by norm_num) (by omega)
  have hpos : (0 : ℤ) < 2 ^ (b - 1) := by positivity
  exact ⟨i, by linarith, by linarith, rfl⟩

theorem floats_subset {digits digits' : Nat} {lo lo' hi hi' : ℤ} (hdigits : digits ≤ digits') (hlo : lo' ≤ lo)
    (hhi : hi ≤ hi') : floats digits lo hi ⊆ floats digits' lo' hi' := by
  rintro d (hname | ⟨m, e, hm, hle, hge, rfl⟩)
  · exact Or.inl hname
  · exact Or.inr ⟨m, e, hm.trans_le (pow_le_pow_right₀ (by norm_num) hdigits), hlo.trans hle, hge.trans hhi, rfl⟩

theorem texts_subset {a b : Nat} (h : a ≤ b) : texts a ⊆ texts b := by
  rintro d ⟨s, hs, rfl⟩
  exact ⟨s, hs.trans h, rfl⟩

theorem byteStrings_subset {a b : Nat} (h : a ≤ b) : byteStrings a ⊆ byteStrings b := by
  rintro d ⟨bs, hbs, rfl⟩
  exact ⟨bs, hbs.trans h, rfl⟩

theorem listsOf_subset {a b : Nat} {items items' : Set (Option Datum)} (h : a ≤ b) (hitems : items ⊆ items') :
    listsOf a items ⊆ listsOf b items' := by
  rintro d ⟨xs, hlen, hxs, rfl⟩
  exact ⟨xs, hlen.trans h, fun x hx => hitems (hxs x hx), rfl⟩

theorem cells_new (n : String) (e : ArrowType) (b : Bool) :
    (ArrowField.new n e b).cells = {x | (x = none ∧ b = true) ∨ ∃ d ∈ e.values, x = some d} := by
  rw [ArrowField.cells]

theorem cells_subset {n n' : String} {e e' : ArrowType} {b b' : Bool} (h : e.values ⊆ e'.values)
    (hnull : b = true → b' = true) : (ArrowField.new n e b).cells ⊆ (ArrowField.new n' e' b').cells := by
  rw [cells_new, cells_new]
  rintro x (⟨rfl, hb⟩ | ⟨d, hd, rfl⟩)
  · exact Or.inl ⟨rfl, hnull hb⟩
  · exact Or.inr ⟨d, h hd, rfl⟩

theorem values_list (item : ArrowField) : (ArrowType.list item).values = listsOf maxI32 item.cells := by
  rw [ArrowType.values]

theorem values_largeList (item : ArrowField) : (ArrowType.largeList item).values = listsOf maxI64 item.cells := by
  rw [ArrowType.values]

theorem list_subset {n n' : String} {e e' : ArrowType} {b b' : Bool} (h : e.values ⊆ e'.values)
    (hnull : b = true → b' = true) :
    (ArrowType.list (.new n e b)).values ⊆ (ArrowType.list (.new n' e' b')).values := by
  rw [values_list, values_list]
  exact listsOf_subset le_rfl (cells_subset h hnull)

theorem largeList_subset {n n' : String} {e e' : ArrowType} {b b' : Bool} (h : e.values ⊆ e'.values)
    (hnull : b = true → b' = true) :
    (ArrowType.largeList (.new n e b)).values ⊆ (ArrowType.largeList (.new n' e' b')).values := by
  rw [values_largeList, values_largeList]
  exact listsOf_subset le_rfl (cells_subset h hnull)

/-! ### Decimals -/

/-- The digits of a decimal fit when its scale grows. -/
def DigitsFit (precision : Nat) (scale : ℤ) (precision' : Nat) (scale' : ℤ) : Prop :=
  precision = 0 ∨ precision + (scale' - scale) ≤ precision'

theorem rescale (m s : ℤ) (k : ℕ) : (m * 10 ^ (-s) : ℚ) = ((m * 10 ^ k : ℤ) : ℚ) * 10 ^ (-(s + k)) := by
  have hpow : (10 : ℚ) ^ (-s) = 10 ^ k * 10 ^ (-(s + k)) := by
    rw [← zpow_natCast, ← zpow_add₀ (by norm_num)]
    congr 1
    omega
  rw [hpow, Int.cast_mul, Int.cast_pow, Int.cast_ofNat, mul_assoc]

theorem decimals_subset {p p' : Nat} {s s' : ℤ} (hs : s ≤ s') (h : DigitsFit p s p' s') :
    decimals p s ⊆ decimals p' s' := by
  obtain ⟨k, hk⟩ := Int.le.dest hs
  subst hk
  rintro d ⟨m, hm, rfl⟩
  refine ⟨m * 10 ^ k, ?_, by rw [rescale m s k]⟩
  rcases h with rfl | hfit
  · have hzero : m = 0 := by
      rw [pow_zero] at hm
      exact Int.abs_lt_one_iff.mp hm
    simp [hzero]
  · calc |m * 10 ^ k| = |m| * 10 ^ k := by rw [abs_mul, abs_of_pos (by positivity : (0 : ℤ) < 10 ^ k)]
      _ < 10 ^ p * 10 ^ k := mul_lt_mul_of_pos_right hm (by positivity)
      _ = 10 ^ (p + k) := (pow_add ..).symm
      _ ≤ 10 ^ p' := pow_le_pow_right₀ (by norm_num) (by omega)

theorem digitsFit_of_subset {p p' : Nat} {s s' : ℤ} (hs : s ≤ s') (h : decimals p s ⊆ decimals p' s') :
    DigitsFit p s p' s' := by
  rcases Nat.eq_zero_or_pos p with rfl | hp
  · exact Or.inl rfl
  · obtain ⟨k, hk⟩ := Int.le.dest hs
    have hmem : Datum.number (((10 ^ (p - 1) : ℤ) : ℚ) * 10 ^ (-s)) ∈ decimals p s := by
      refine ⟨10 ^ (p - 1), ?_, rfl⟩
      rw [abs_of_pos (by positivity)]
      exact pow_lt_pow_right₀ (by norm_num) (by omega)
    obtain ⟨m, hm, heq⟩ := h hmem
    rw [rescale _ s k, hk] at heq
    have hne : (10 : ℚ) ^ (-s') ≠ 0 := zpow_ne_zero _ (by norm_num)
    have hm' : m = 10 ^ (p - 1) * 10 ^ k := Int.cast_injective (mul_right_cancel₀ hne (Datum.number.inj heq)).symm
    rw [← pow_add] at hm'
    rw [hm', abs_of_pos (by positivity)] at hm
    have hlt := (pow_lt_pow_iff_right₀ (by norm_num : (1 : ℤ) < 10)).mp hm
    exact Or.inr (by omega)

/-! ### Units -/

theorem TimeUnit.seconds_pos (u : TimeUnit) : 0 < u.seconds := by
  unfold seconds
  positivity

theorem TimeUnit.seconds_eq {u v : TimeUnit} (h : u.rank ≤ v.rank) :
    u.seconds = ((1000 ^ (v.rank - u.rank) : ℤ) : ℚ) * v.seconds := by
  have hpow : (1000 : ℚ) ^ v.rank = 1000 ^ (v.rank - u.rank) * 1000 ^ u.rank := by
    rw [← pow_add, Nat.sub_add_cancel h]
  have hne : (1000 : ℚ) ^ (v.rank - u.rank) ≠ 0 := pow_ne_zero _ (by norm_num)
  rw [seconds, seconds, hpow, Int.cast_pow, Int.cast_ofNat, mul_one_div, div_mul_cancel_left₀ hne, one_div]

theorem TimeUnit.rank_le_finer (u v : TimeUnit) : u.rank ≤ (u.finer v).rank := by
  unfold finer
  split
  · assumption
  · exact le_rfl

theorem timesOfDay_subset (u v : TimeUnit) : timesOfDay u ⊆ timesOfDay (u.finer v) := by
  rintro d ⟨i, hlo, hhi, rfl⟩
  have hseconds : (i * u.seconds : ℚ) =
      ((i * 1000 ^ ((u.finer v).rank - u.rank) : ℤ) : ℚ) * (u.finer v).seconds := by
    rw [TimeUnit.seconds_eq (u.rank_le_finer v), Int.cast_mul, mul_assoc]
  rw [hseconds] at hhi ⊢
  exact ⟨_, by positivity, hhi, rfl⟩

theorem durations_not_subset {u v : TimeUnit} (h : u.rank < v.rank) :
    ¬counted .duration u ⊆ counted .duration v := by
  intro hsub
  have hmem : Datum.duration (((2 ^ 63 - 1 : ℤ) : ℚ) * u.seconds) ∈ counted .duration u :=
    ⟨2 ^ 63 - 1, ⟨by norm_num, by norm_num⟩, rfl⟩
  obtain ⟨i, ⟨-, hi⟩, heq⟩ := hsub hmem
  rw [TimeUnit.seconds_eq h.le, ← mul_assoc, ← Int.cast_mul] at heq
  have hik : (2 ^ 63 - 1 : ℤ) * 1000 ^ (v.rank - u.rank) = i :=
    Int.cast_injective (mul_right_cancel₀ v.seconds_pos.ne' (Datum.duration.inj heq))
  have hfactor : (1000 : ℤ) ≤ 1000 ^ (v.rank - u.rank) := le_self_pow₀ (by norm_num) (by omega)
  omega

end Reiver.Pond
