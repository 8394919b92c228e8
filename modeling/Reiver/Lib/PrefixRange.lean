import Mathlib.Data.List.Lex
import Mathlib.Data.String.Basic
import Mathlib.Order.Cover
import Reiver.Lib.Bytes

/-! Texts with a common prefix are a range of the lexicographic order. -/

namespace Reiver

section PrefixRange
variable {α : Type} [LinearOrder α] {c d : α} {before tops s t : List α}

theorem cons_le_cons_iff_lex {a b : α} : a :: s ≤ b :: t ↔ a < b ∨ a = b ∧ s ≤ t := by
  rw [le_iff_lt_or_eq, List.cons_lt_cons_iff, List.cons.injEq, le_iff_lt_or_eq (a := s), or_assoc, and_or_left]

theorem le_of_starts {l : List α} (h : l <+: s) : l ≤ s := by
  obtain ⟨r, rfl⟩ := h
  induction l with
  | nil =>
    cases r with
    | nil => exact le_rfl
    | cons a r => exact (List.nil_lt_cons a r).le
  | cons a l ih => exact cons_le_cons_iff_lex.mpr (.inr ⟨rfl, ih⟩)

theorem prefix_iff_of_tops (htops : ∀ a ∈ tops, IsTop a) : tops <+: s ↔ tops ≤ s := by
  refine ⟨le_of_starts, fun h => ?_⟩
  induction tops generalizing s with
  | nil => exact List.nil_prefix
  | cons a tops ih =>
    cases s with
    | nil => exact absurd (List.nil_lt_cons a tops) (not_lt.mpr h)
    | cons b s =>
      rcases cons_le_cons_iff_lex.mp h with hlt | ⟨rfl, hle⟩
      · exact absurd (htops a List.mem_cons_self b) (not_le.mpr hlt)
      · exact (List.prefix_cons_inj a).mpr (ih (fun b hb => htops b (List.mem_cons_of_mem a hb)) hle)

/-- The lists that start with a list whose last letters are greatest: those from it on and below the list that has
    the next letter in place of the letter before them. -/
theorem prefix_iff_range (hcd : c ⋖ d) (htops : ∀ a ∈ tops, IsTop a) :
    before ++ c :: tops <+: s ↔ before ++ c :: tops ≤ s ∧ s < before ++ [d] := by
  induction before generalizing s with
  | nil =>
    rw [List.nil_append, List.nil_append]
    cases s with
    | nil =>
      refine iff_of_false (fun h => List.cons_ne_nil _ _ (List.prefix_nil.mp h)) fun h => ?_
      exact absurd (List.nil_lt_cons c tops) (not_lt.mpr h.1)
    | cons a s =>
      rw [List.cons_prefix_cons, cons_le_cons_iff_lex, List.cons_lt_cons_iff, prefix_iff_of_tops htops]
      constructor
      · rintro ⟨rfl, hle⟩
        exact ⟨.inr ⟨rfl, hle⟩, .inl hcd.lt⟩
      · rintro ⟨hlow, hhigh⟩
        have had : a < d := hhigh.elim id fun h => absurd h.2 (List.not_lt_nil s)
        exact hlow.elim (fun hca => absurd had (hcd.2 hca)) id
  | cons b before ih =>
    cases s with
    | nil =>
      refine iff_of_false (fun h => List.cons_ne_nil _ _ (List.prefix_nil.mp h)) fun h => ?_
      exact absurd (List.nil_lt_cons b _) (not_lt.mpr h.1)
    | cons a s =>
      rw [List.cons_append, List.cons_append, List.cons_prefix_cons, cons_le_cons_iff_lex, List.cons_lt_cons_iff, ih]
      constructor
      · rintro ⟨rfl, hlow, hhigh⟩
        exact ⟨.inr ⟨rfl, hlow⟩, .inr ⟨rfl, hhigh⟩⟩
      · rintro ⟨hba | ⟨rfl, hlow⟩, hab | ⟨heq, hhigh⟩⟩
        · exact absurd hba (lt_asymm hab)
        · exact absurd heq hba.ne'
        · exact absurd hab (lt_irrefl b)
        · exact ⟨rfl, hlow, hhigh⟩

end PrefixRange

end Reiver

/-! Texts are ordered by their characters as by their UTF-8 bytes. -/

namespace Reiver

/-- Two byte sequences that come apart at a byte, the first below the second. -/
def Below (bytes bytes' : Bytes) : Prop :=
  ∃ u x y r r', x < y ∧ bytes = u ++ x :: r ∧ bytes' = u ++ y :: r'

section Below
variable {bytes bytes' u r r' : Bytes} {x y : UInt8}

theorem Below.head (h : x < y) : Below (x :: r) (y :: r') := ⟨[], x, y, r, r', h, rfl, rfl⟩

theorem Below.cons (h : Below bytes bytes') (b : UInt8) : Below (b :: bytes) (b :: bytes') := by
  obtain ⟨u, x, y, r, r', hxy, rfl, rfl⟩ := h
  exact ⟨b :: u, x, y, r, r', hxy, rfl, rfl⟩

theorem Below.lt_append (h : Below bytes bytes') (r r' : Bytes) : bytes ++ r < bytes' ++ r' := by
  obtain ⟨u, x, y, v, v', hxy, rfl, rfl⟩ := h
  induction u with
  | nil => exact List.cons_lt_cons_iff.mpr (.inl hxy)
  | cons b u ih => exact List.cons_lt_cons_iff.mpr (.inr ⟨rfl, ih⟩)

theorem Below.step {b b' : UInt8} (h : b ≤ b') (hrest : b = b' → Below r r') : Below (b :: r) (b' :: r') := by
  by_cases heq : b = b'
  · exact heq ▸ (hrest heq).cons b
  · exact .head (UInt8.lt_of_le_of_ne h heq)

end Below

theorem ofNat_le {n m : Nat} (h : n ≤ m) (hm : m < 256) : UInt8.ofNat n ≤ UInt8.ofNat m := by
  rw [UInt8.le_iff_toNat_le, UInt8.toNat_ofNat', UInt8.toNat_ofNat', Nat.mod_eq_of_lt hm,
    Nat.mod_eq_of_lt (h.trans_lt hm)]
  exact h

theorem ofNat_lt {n m : Nat} (h : n < m) (hm : m < 256) : UInt8.ofNat n < UInt8.ofNat m := by
  rw [UInt8.lt_iff_toNat_lt, UInt8.toNat_ofNat', UInt8.toNat_ofNat', Nat.mod_eq_of_lt hm,
    Nat.mod_eq_of_lt (h.trans hm)]
  exact h

theorem ofNat_inj {n m : Nat} (hn : n < 256) (hm : m < 256) (h : UInt8.ofNat n = UInt8.ofNat m) : n = m := by
  have hnat := congrArg UInt8.toNat h
  rwa [UInt8.toNat_ofNat', UInt8.toNat_ofNat', Nat.mod_eq_of_lt hn, Nat.mod_eq_of_lt hm] at hnat

theorem below_utf8EncodeChar {c d : Char} (h : c < d) : Below (String.utf8EncodeChar c) (String.utf8EncodeChar d) := by
  have hlt : c.val.toNat < d.val.toNat := h
  have hd : d.val.toNat < 1114112 := d.valid.elim (fun h => by omega) And.right
  rw [String.utf8EncodeChar.eq_def, String.utf8EncodeChar.eq_def]
  dsimp only
  split_ifs with h1 h2 h3 h4 h5 h6 h7 h8 h9 h10
  all_goals first
    | omega
    | exact .head (ofNat_lt (by omega) (by omega))
    | skip
  · refine .step (ofNat_le (by omega) (by omega)) fun heq => ?_
    have := ofNat_inj (by omega) (by omega) heq
    exact .head (ofNat_lt (by omega) (by omega))
  · refine .step (ofNat_le (by omega) (by omega)) fun heq => ?_
    have := ofNat_inj (by omega) (by omega) heq
    refine .step (ofNat_le (by omega) (by omega)) fun heq => ?_
    have := ofNat_inj (by omega) (by omega) heq
    exact .head (ofNat_lt (by omega) (by omega))
  · refine .step (ofNat_le (by omega) (by omega)) fun heq => ?_
    have := ofNat_inj (by omega) (by omega) heq
    refine .step (ofNat_le (by omega) (by omega)) fun heq => ?_
    have := ofNat_inj (by omega) (by omega) heq
    refine .step (ofNat_le (by omega) (by omega)) fun heq => ?_
    have := ofNat_inj (by omega) (by omega) heq
    exact .head (ofNat_lt (by omega) (by omega))

theorem utf8Bytes_eq_flatMap (s : String) : utf8Bytes s = s.toList.flatMap String.utf8EncodeChar := by
  rw [utf8Bytes, ← String.ofList_toList (s := s), String.toList_ofList]
  exact List.toList_data_toByteArray

theorem utf8Bytes_lt_of_lt {s t : String} (h : s < t) : utf8Bytes s < utf8Bytes t := by
  have hchars : s.toList < t.toList := String.lt_iff_toList_lt.mp h
  rw [utf8Bytes_eq_flatMap, utf8Bytes_eq_flatMap]
  generalize s.toList = l at hchars
  generalize t.toList = l' at hchars
  induction l generalizing l' with
  | nil =>
    cases l' with
    | nil => exact absurd hchars (lt_irrefl _)
    | cons d l' =>
      obtain ⟨b, r, hb⟩ := List.exists_cons_of_ne_nil (String.utf8EncodeChar_ne_nil (c := d))
      rw [List.flatMap_nil, List.flatMap_cons, hb]
      exact List.nil_lt_cons b _
  | cons c l ih =>
    cases l' with
    | nil => exact absurd hchars (List.not_lt_nil _)
    | cons d l' =>
      rw [List.flatMap_cons, List.flatMap_cons]
      rcases List.cons_lt_cons_iff.mp hchars with hlt | ⟨rfl, hrest⟩
      · exact (below_utf8EncodeChar hlt).lt_append _ _
      · exact List.append_left_lt (ih l' hrest)

theorem utf8Bytes_lt_iff {s t : String} : utf8Bytes s < utf8Bytes t ↔ s < t := by
  refine ⟨fun h => ?_, utf8Bytes_lt_of_lt⟩
  by_contra hle
  rcases (not_lt.mp hle).lt_or_eq with hlt | heq
  · exact List.lt_asymm h (utf8Bytes_lt_of_lt hlt)
  · exact List.lt_irrefl _ (heq ▸ h)

theorem utf8Bytes_le_iff {s t : String} : utf8Bytes s ≤ utf8Bytes t ↔ s ≤ t := by
  rw [← List.not_lt, utf8Bytes_lt_iff, not_lt]

end Reiver
