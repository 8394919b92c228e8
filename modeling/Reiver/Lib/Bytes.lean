import Mathlib.Algebra.Order.Ring.Int
import Mathlib.Data.List.Basic
import Mathlib.Data.Nat.Bitwise
import Mathlib.Data.Nat.Init

/-! Byte buffers written front to back and read at a position. -/

namespace Reiver

abbrev Bytes := List UInt8

/-! ### Little-endian integers -/

/-- The low `w` bytes of a number, lowest first. -/
def leBytes : Nat → Nat → Bytes
  | 0, _ => []
  | w + 1, n => UInt8.ofNat n :: leBytes w (n / 256)

def ofLeBytes : Bytes → Nat
  | [] => 0
  | b :: bs => b.toNat + 256 * ofLeBytes bs

@[simp] theorem leBytes_length (w n : Nat) : (leBytes w n).length = w := by
  induction w generalizing n with
  | zero => rfl
  | succ w ih => rw [leBytes, List.length_cons, ih]

theorem ofLeBytes_leBytes (w n : Nat) : ofLeBytes (leBytes w n) = n % 256 ^ w := by
  induction w generalizing n with
  | zero => rw [leBytes, ofLeBytes, Nat.pow_zero, Nat.mod_one]
  | succ w ih =>
    show (UInt8.ofNat n).toNat + 256 * ofLeBytes (leBytes w (n / 256)) = n % 256 ^ (w + 1)
    rw [ih, Nat.pow_succ', Nat.mod_mul]
    rfl

/-! ### Strings -/

def utf8Bytes (s : String) : Bytes := s.toByteArray.data.toList

def fromUtf8 (bytes : Bytes) : Option String := String.fromUTF8? ⟨bytes.toArray⟩

@[simp] theorem utf8Bytes_length (s : String) : (utf8Bytes s).length = s.utf8ByteSize := by
  rw [utf8Bytes, Array.length_toList, String.utf8ByteSize]
  rfl

theorem fromUtf8_utf8Bytes (s : String) : fromUtf8 (utf8Bytes s) = some s := by
  have harr : (⟨(utf8Bytes s).toArray⟩ : ByteArray) = s.toByteArray := by rw [utf8Bytes, Array.toArray_toList]
  rw [fromUtf8, harr, String.fromUTF8?, dif_pos s.isValidUTF8]
  rfl

/-! ### Reading at a position -/

/-- From `pos` on, `bytes` holds `rest`. -/
structure At (bytes : Bytes) (pos : Nat) (rest : Bytes) : Prop where
  le : pos ≤ bytes.length
  drop : bytes.drop pos = rest

namespace At
variable {bytes chunk rest : Bytes} {pos n : Nat}

theorem start (bytes : Bytes) : At bytes 0 bytes := ⟨Nat.zero_le _, rfl⟩

theorem fits (h : At bytes pos (chunk ++ rest)) (hn : chunk.length = n) : pos + n ≤ bytes.length := by
  have hlen := congrArg List.length h.drop
  rw [List.length_drop, List.length_append] at hlen
  have := h.le
  omega

theorem advance (h : At bytes pos (chunk ++ rest)) (hn : chunk.length = n) : At bytes (pos + n) rest where
  le := h.fits hn
  drop := by rw [← List.drop_drop, h.drop, ← hn, List.drop_left]

theorem take (h : At bytes pos (chunk ++ rest)) (hn : chunk.length = n) : (bytes.drop pos).take n = chunk := by
  rw [h.drop, ← hn, List.take_left]

end At

end Reiver

/-! Byte sequences as arrays of bits, the lowest bit of a byte first. -/

namespace Reiver

section BitBytes
variable {bytes : Bytes} {b : UInt8} {i j index : Nat}

/-- The bit at a place, `false` beyond the bytes. -/
def getBit (bytes : Bytes) (index : Nat) : Bool :=
  match bytes[index / 8]? with
  | some b => (b &&& (1 <<< UInt8.ofNat (index % 8))) != 0
  | none => false

/-- Sets the bit at a place, if the bytes reach that far. -/
def setBit (bytes : Bytes) (index : Nat) : Bytes :=
  if index / 8 < bytes.length then bytes.modify (index / 8) (· ||| (1 <<< UInt8.ofNat (index % 8))) else bytes

theorem toNat_one_shiftLeft (hi : i < 8) : ((1 : UInt8) <<< UInt8.ofNat i).toNat = 2 ^ i := by
  have hpow : 2 ^ i < 2 ^ 8 := Nat.pow_lt_pow_right (by decide) hi
  rw [UInt8.toNat_shiftLeft, UInt8.toNat_ofNat', Nat.mod_eq_of_lt (a := i) (by omega), Nat.mod_eq_of_lt hi]
  show 1 <<< i % 2 ^ 8 = 2 ^ i
  rw [Nat.one_shiftLeft, Nat.mod_eq_of_lt hpow]

theorem masked_iff (hi : i < 8) : ((b &&& (1 <<< UInt8.ofNat i)) != 0) = b.toNat.testBit i := by
  have hzero : (b &&& (1 <<< UInt8.ofNat i)) = 0 ↔ b.toNat.testBit i = false := by
    rw [← UInt8.toNat_inj, UInt8.toNat_and, toNat_one_shiftLeft hi, Nat.and_two_pow]
    show (b.toNat.testBit i).toNat * 2 ^ i = 0 ↔ _
    rw [Nat.mul_eq_zero, or_iff_left (Nat.two_pow_pos i).ne', Bool.toNat_eq_zero]
  rw [bne, Bool.eq_iff_iff, Bool.not_eq_true', beq_eq_false_iff_ne, ne_eq, hzero, Bool.not_eq_false]

theorem testBit_or_mask (hi : i < 8) :
    (b ||| (1 <<< UInt8.ofNat i)).toNat.testBit j = (b.toNat.testBit j || decide (i = j)) := by
  rw [UInt8.toNat_or, toNat_one_shiftLeft hi, Nat.testBit_or, Nat.testBit_two_pow]

@[simp] theorem length_setBit : (setBit bytes index).length = bytes.length := by
  rw [setBit]
  split
  · exact List.length_modify ..
  · rfl

theorem getBit_eq (hlt : index / 8 < bytes.length) :
    getBit bytes index = (bytes[index / 8]).toNat.testBit (index % 8) := by
  rw [getBit, List.getElem?_eq_getElem hlt]
  exact masked_iff (Nat.mod_lt _ (by decide))

theorem getBit_of_ge (hge : bytes.length ≤ index / 8) : getBit bytes index = false := by
  rw [getBit, List.getElem?_eq_none hge]

theorem getBit_setBit :
    getBit (setBit bytes i) j = (getBit bytes j || decide (i = j ∧ i / 8 < bytes.length)) := by
  by_cases hj : j / 8 < bytes.length
  · rw [getBit_eq (by rw [length_setBit]; exact hj), getBit_eq hj]
    by_cases hi : i / 8 < bytes.length
    · simp only [setBit, if_pos hi, List.getElem_modify]
      by_cases hbyte : i / 8 = j / 8
      · have hbit : i % 8 = j % 8 ↔ i = j := by omega
        rw [if_pos hbyte, testBit_or_mask (Nat.mod_lt _ (by decide))]
        simp only [hbit, hi, and_true]
      · have hne : i ≠ j := fun h => hbyte (h ▸ rfl)
        simp only [if_neg hbyte, hne, false_and, decide_false, Bool.or_false]
    · have hsame : setBit bytes i = bytes := if_neg hi
      simp only [hsame, hi, and_false, decide_false, Bool.or_false]
  · have hfalse : ¬ (i = j ∧ i / 8 < bytes.length) := fun h => hj (h.1 ▸ h.2)
    rw [getBit_of_ge (by rw [length_setBit]; omega), getBit_of_ge (by omega), decide_eq_false hfalse]
    rfl

end BitBytes

end Reiver
