import Mathlib.Algebra.BigOperators.Group.List.Basic
import Mathlib.Algebra.Order.Ring.Nat
import Mathlib.Data.List.Basic
import Mathlib.Tactic.DeriveFintype

/-! # The text of a recovery code

The model of how `generate_recovery_codes_internal` writes a code and how `verify_mfa_code` and `verify_recovery_code`
read one: dashes go, letters become capitals, and twelve bytes are cut at fixed offsets. -/

namespace Reiver.Website

abbrev Text := List Char

structure Uppercase where
  upper : Char → Text
  upper_dash : upper '-' = ['-']
  dash_notMem : ∀ c ≠ '-', '-' ∉ upper c
  upper_digit : ∀ c : Char, c.isDigit = true → upper c = [c]

/-! ### Bytes -/

def byteLen (text : Text) : Nat := (text.map Char.utf8Size).sum

/-- The two parts of a text at a byte offset, if that is between two characters. -/
def splitAtByte : Text → Nat → Option (Text × Text)
  | text, 0 => some ([], text)
  | [], _ + 1 => none
  | c :: text, k + 1 =>
    if c.utf8Size ≤ k + 1 then (splitAtByte text (k + 1 - c.utf8Size)).map fun e => (c :: e.1, e.2) else none

def Boundary (text : Text) (k : Nat) : Prop := ∃ before after, text = before ++ after ∧ byteLen before = k

/-! ### Codes -/

def codeChar (idx : Fin 36) : Char :=
  if idx.val < 10 then Char.ofNat ('0'.toNat + idx.val) else Char.ofNat ('A'.toNat + idx.val - 10)

structure RecoveryCode where
  drawn : List (Fin 36)
  length_drawn : drawn.length = 12

namespace RecoveryCode

def chars (code : RecoveryCode) : Text := code.drawn.map codeChar

/-- `XXXX-XXXX-XXXX` -/
def formatted (code : RecoveryCode) : Text :=
  code.chars.take 4 ++ '-' :: ((code.chars.drop 4).take 4 ++ '-' :: code.chars.drop 8)

end RecoveryCode

section Reading
variable (letters : Uppercase)

def normalize (text : Text) : Text := (text.filter (· ≠ '-')).flatMap letters.upper

/-- The code that a text is read as; a cut inside a character panics. -/
def formatCode (text : Text) : Option Text :=
  let normalized := normalize letters text
  if byteLen normalized = 12 then do
    let (first, rest) ← splitAtByte normalized 4
    let (second, third) ← splitAtByte rest 4
    some (first ++ '-' :: (second ++ '-' :: third))
  else some (text.flatMap letters.upper)

def CutsBetween (text : Text) : Prop :=
  byteLen (normalize letters text) = 12 → Boundary (normalize letters text) 4 ∧ Boundary (normalize letters text) 8

end Reading

/-! ### Cuts -/

section Cuts
variable {text before after : Text} {k : Nat}

@[simp] theorem byteLen_cons (c : Char) : byteLen (c :: text) = c.utf8Size + byteLen text := List.sum_cons

@[simp] theorem byteLen_append : byteLen (before ++ after) = byteLen before + byteLen after := by
  rw [byteLen, List.map_append, List.sum_append]
  rfl

theorem splitAtByte_eq_some_iff :
    splitAtByte text k = some (before, after) ↔ text = before ++ after ∧ byteLen before = k := by
  induction text generalizing k before with
  | nil =>
    cases k with
    | zero =>
      rw [splitAtByte]
      constructor
      · rintro ⟨⟩
        exact ⟨rfl, rfl⟩
      · rintro ⟨h, -⟩
        obtain ⟨rfl, rfl⟩ := List.append_eq_nil_iff.mp h.symm
        rfl
    | succ k =>
      rw [splitAtByte]
      refine iff_of_false (fun h => by cases h) ?_
      rintro ⟨h, hlen⟩
      obtain ⟨rfl, rfl⟩ := List.append_eq_nil_iff.mp h.symm
      cases hlen
  | cons c text ih =>
    have hpos : 0 < c.utf8Size := c.utf8Size_pos
    cases k with
    | zero =>
      rw [splitAtByte]
      constructor
      · rintro ⟨⟩
        exact ⟨rfl, rfl⟩
      · rintro ⟨h, hlen⟩
        cases before with
        | nil =>
          rw [List.nil_append] at h
          rw [h]
        | cons b before =>
          have hb : 0 < b.utf8Size := b.utf8Size_pos
          rw [byteLen_cons] at hlen
          omega
    | succ k =>
      rw [splitAtByte]
      constructor
      · intro h
        obtain ⟨hle, h⟩ := Option.ite_none_right_eq_some.mp h
        obtain ⟨⟨rest, after'⟩, hsplit, he⟩ := Option.map_eq_some_iff.mp h
        cases he
        obtain ⟨rfl, hlen : byteLen rest = _⟩ := ih.mp hsplit
        refine ⟨rfl, ?_⟩
        change byteLen (c :: rest) = k + 1
        rw [byteLen_cons]
        omega
      · rintro ⟨h, hlen⟩
        cases before with
        | nil => cases hlen
        | cons b before =>
          obtain ⟨rfl, rfl⟩ := List.cons.inj h
          rw [byteLen_cons] at hlen
          rw [if_pos (by omega), ih.mpr ⟨rfl, by omega⟩]
          rfl

theorem boundary_iff : Boundary text k ↔ (splitAtByte text k).isSome := by
  rw [Option.isSome_iff_exists, Prod.exists]
  exact exists₂_congr fun before after => splitAtByte_eq_some_iff.symm

theorem boundary_append : Boundary (before ++ after) (byteLen before + k) ↔ Boundary after k := by
  constructor
  · rintro ⟨first, rest, h, hlen⟩
    rcases List.append_eq_append_iff.mp h with ⟨mid, rfl, rfl⟩ | ⟨mid, rfl, rfl⟩
    · rw [byteLen_append] at hlen
      exact ⟨mid, rest, rfl, by omega⟩
    · rw [byteLen_append] at hlen
      have hmid : byteLen mid = 0 := by omega
      have hk : k = 0 := by omega
      exact ⟨[], after, rfl, hk.symm⟩
  · rintro ⟨first, rest, rfl, rfl⟩
    exact ⟨before ++ first, rest, (List.append_assoc _ _ _).symm, byteLen_append⟩

end Cuts

/-! ### Codes that are read back -/

section Reads
variable {letters : Uppercase} {text first second third : Text} {code code' : RecoveryCode}

theorem dash_notMem_upper {c : Char} (h : c ≠ '-') : ∀ d ∈ letters.upper c, d ≠ '-' := by
  rintro d hd rfl
  exact letters.dash_notMem c h hd

theorem dash_notMem_normalize : ∀ d ∈ normalize letters text, d ≠ '-' := by
  intro d hd
  obtain ⟨c, hc, hd⟩ := List.mem_flatMap.mp hd
  exact dash_notMem_upper (of_decide_eq_true (List.mem_filter.mp hc).2) d hd

theorem filter_of_no_dash (h : ∀ d ∈ text, d ≠ '-') : text.filter (· ≠ '-') = text :=
  List.filter_eq_self.mpr fun d hd => decide_eq_true (h d hd)

theorem filter_flatMap_upper : (text.flatMap letters.upper).filter (· ≠ '-') = normalize letters text := by
  rw [normalize]
  induction text with
  | nil => rfl
  | cons c text ih =>
    rw [List.flatMap_cons, List.filter_append, ih]
    by_cases hc : c = '-'
    · rw [hc, letters.upper_dash]
      rfl
    · have hkeep : (c :: text).filter (· ≠ '-') = c :: text.filter (· ≠ '-') :=
        List.filter_cons_of_pos (decide_eq_true hc)
      rw [hkeep, List.flatMap_cons, filter_of_no_dash (dash_notMem_upper hc)]

theorem filter_dashed : (first ++ '-' :: (second ++ '-' :: third)).filter (· ≠ '-') =
    (first ++ second ++ third).filter (· ≠ '-') := by
  simp

theorem codeChar_ne_dash (idx : Fin 36) : codeChar idx ≠ '-' := by
  revert idx
  decide

theorem utf8Size_codeChar (idx : Fin 36) : (codeChar idx).utf8Size = 1 := by
  revert idx
  decide

theorem byteLen_of_ascii (h : ∀ c ∈ text, c.utf8Size = 1) : byteLen text = text.length := by
  induction text with
  | nil => rfl
  | cons c text ih =>
    obtain ⟨hc, htext⟩ := List.forall_mem_cons.mp h
    rw [byteLen_cons, hc, ih htext, List.length_cons, Nat.add_comm]

theorem utf8Size_chars : ∀ c ∈ code.chars, c.utf8Size = 1 := by
  rintro c hc
  obtain ⟨idx, -, rfl⟩ := List.mem_map.mp hc
  exact utf8Size_codeChar idx

theorem length_chars : code.chars.length = 12 := (List.length_map _).trans code.length_drawn

theorem byteLen_chars : byteLen code.chars = 12 := (byteLen_of_ascii utf8Size_chars).trans length_chars

theorem filter_formatted : code.formatted.filter (· ≠ '-') = code.chars := by
  have hsplit : code.chars.take 4 ++ (code.chars.drop 4).take 4 ++ code.chars.drop 8 = code.chars := by
    rw [List.append_assoc, show code.chars.drop 8 = (code.chars.drop 4).drop 4 by rw [List.drop_drop],
      List.take_append_drop, List.take_append_drop]
  rw [RecoveryCode.formatted, filter_dashed, hsplit]
  refine filter_of_no_dash fun c hc => ?_
  obtain ⟨idx, -, rfl⟩ := List.mem_map.mp hc
  exact codeChar_ne_dash idx

theorem splitAtByte_of_ascii (h : ∀ c ∈ text, c.utf8Size = 1) {k : Nat} (hk : k ≤ text.length) :
    splitAtByte text k = some (text.take k, text.drop k) := by
  refine splitAtByte_eq_some_iff.mpr ⟨(List.take_append_drop k text).symm, ?_⟩
  rw [byteLen_of_ascii fun c hc => h c (List.mem_of_mem_take hc), List.length_take, min_eq_left hk]

theorem formatCode_eq_formatted_iff :
    formatCode letters text = some code.formatted ↔ normalize letters text = code.chars := by
  rw [formatCode]
  dsimp only
  split
  · next hlen =>
    constructor
    · intro h
      obtain ⟨⟨first, rest⟩, hfirst, h⟩ := Option.bind_eq_some_iff.mp h
      obtain ⟨⟨second, third⟩, hsecond, h⟩ := Option.bind_eq_some_iff.mp h
      obtain ⟨htext, -⟩ := splitAtByte_eq_some_iff.mp hfirst
      obtain ⟨rfl, -⟩ := splitAtByte_eq_some_iff.mp hsecond
      rw [← filter_formatted, ← Option.some.inj h, filter_dashed, List.append_assoc, ← htext,
        filter_of_no_dash dash_notMem_normalize]
    · intro h
      rw [h, splitAtByte_of_ascii utf8Size_chars (by rw [length_chars]; decide)]
      have hdrop : ∀ c ∈ code.chars.drop 4, c.utf8Size = 1 := fun c hc => utf8Size_chars c (List.mem_of_mem_drop hc)
      change (splitAtByte (code.chars.drop 4) 4).bind _ = _
      rw [splitAtByte_of_ascii hdrop (by rw [List.length_drop, length_chars]; decide), Option.bind_some, List.drop_drop]
      rfl
  · next hlen =>
    refine iff_of_false (fun h => hlen ?_) fun h => hlen (by rw [h, byteLen_chars])
    rw [← filter_flatMap_upper, Option.some.inj h, filter_formatted, byteLen_chars]

theorem formatCode_isSome_iff : (formatCode letters text).isSome ↔ CutsBetween letters text := by
  rw [formatCode, CutsBetween]
  dsimp only
  split
  · next hlen =>
    rw [iff_true_intro hlen, true_imp_iff]
    cases hfirst : splitAtByte (normalize letters text) 4 with
    | none =>
      refine iff_of_false (fun h => by cases h) fun h => ?_
      have hsome := boundary_iff.mp h.1
      rw [hfirst] at hsome
      cases hsome
    | some e =>
      obtain ⟨first, rest⟩ := e
      have hboundary : Boundary (normalize letters text) 4 := boundary_iff.mpr (by rw [hfirst]; rfl)
      obtain ⟨htext, hbytes⟩ := splitAtByte_eq_some_iff.mp hfirst
      have hrest : Boundary (normalize letters text) 8 ↔ Boundary rest 4 := by
        have hshift : Boundary (first ++ rest) (byteLen first + 4) ↔ Boundary rest 4 := boundary_append
        rwa [hbytes, ← htext] at hshift
      rw [and_iff_right hboundary, hrest, boundary_iff]
      change ((splitAtByte rest 4).bind _).isSome = true ↔ _
      cases splitAtByte rest 4 with
      | none => exact Iff.rfl
      | some e => exact iff_of_true rfl rfl
  · next hlen => exact iff_of_true rfl fun h => absurd h hlen

theorem normalize_of_digits (h : ∀ c ∈ text, c.isDigit = true) : normalize letters text = text := by
  have hdash : ∀ c ∈ text, c ≠ '-' := by
    rintro c hc rfl
    exact absurd (h '-' hc) (by decide)
  rw [normalize, filter_of_no_dash hdash]
  have hupper : ∀ c ∈ text, letters.upper c = [c] := fun c hc => letters.upper_digit c (h c hc)
  rw [List.flatMap_congr hupper, List.flatMap_singleton']

end Reads

end Reiver.Website
