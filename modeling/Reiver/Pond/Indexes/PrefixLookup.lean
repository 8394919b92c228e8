import Mathlib.Data.List.TakeWhile
import Reiver.Lib.PrefixRange
import Reiver.Pond.Indexes.SkipIndex

/-! # Prefix lookups are exact

A prefix is looked up by a scan of the range between the prefix and its increment. The increment is the least text
above all texts with the prefix, so the scan finds exactly the keys that start with it. -/

namespace Reiver.Pond

variable {c d : Char} {pfx key : String} {before tops : List Char}

/-! ### The order of characters -/

theorem char_lt_iff : c < d ↔ c.toNat < d.toNat := Iff.rfl

theorem char_range (c : Char) : c.toNat < 0xD800 ∨ 0xDFFF < c.toNat ∧ c.toNat < 0x110000 := c.valid

theorem isTop_of_max (h : c.toNat = 0x10FFFF) : IsTop c := by
  intro d
  have := char_range d
  exact not_lt.mp fun hlt => by
    rw [char_lt_iff] at hlt
    omega

theorem nextChar_toNat (h : c.toNat ≠ 0x10FFFF) :
    (nextChar c).toNat = if c.toNat = 0xD7FF then 0xE000 else c.toNat + 1 := by
  have := char_range c
  rw [nextChar]
  split
  · rfl
  · next hgap =>
    have hvalid : (c.toNat + 1).isValidChar := by
      unfold Nat.isValidChar
      omega
    rw [Char.ofNat, dif_pos hvalid]
    rfl

theorem covBy_nextChar (h : c.toNat ≠ 0x10FFFF) : c ⋖ nextChar c := by
  have hnext := nextChar_toNat h
  have hc := char_range c
  refine ⟨?_, fun d hlow hhigh => ?_⟩
  · rw [char_lt_iff, hnext]
    split <;> omega
  · have hd := char_range d
    rw [char_lt_iff] at hlow hhigh
    rw [hnext] at hhigh
    split at hhigh <;> omega

/-! ### The increment of a prefix -/

theorem exists_last_below {l : List Char} (h : ∃ c ∈ l, c.toNat ≠ 0x10FFFF) :
    ∃ before c tops, l = before ++ c :: tops ∧ c.toNat ≠ 0x10FFFF ∧ ∀ a ∈ tops, a.toNat = 0x10FFFF := by
  induction l with
  | nil =>
    obtain ⟨c, hc, -⟩ := h
    cases hc
  | cons a l ih =>
    by_cases hl : ∃ c ∈ l, c.toNat ≠ 0x10FFFF
    · obtain ⟨before, c, tops, rfl, hc, htops⟩ := ih hl
      exact ⟨a :: before, c, tops, rfl, hc, htops⟩
    · have hall : ∀ c ∈ l, c.toNat = 0x10FFFF := by simpa using hl
      obtain ⟨c, hc, hne⟩ := h
      rcases List.mem_cons.mp hc with rfl | hc
      · exact ⟨[], c, l, rfl, hne, hall⟩
      · exact absurd (hall c hc) hne

theorem incrementLastByte_eq (hpfx : pfx.toList = before ++ c :: tops) (hc : c.toNat ≠ 0x10FFFF)
    (htops : ∀ a ∈ tops, a.toNat = 0x10FFFF) : incrementLastByte pfx = String.ofList (before ++ [nextChar c]) := by
  have hdrop : pfx.toList.reverse.dropWhile (·.toNat = 0x10FFFF) = c :: before.reverse := by
    rw [hpfx, List.reverse_append, List.reverse_cons, List.append_assoc, List.dropWhile_append_of_pos]
    · exact List.dropWhile_cons_of_neg (by simpa using hc)
    · exact fun a ha => by simpa using htops a (List.mem_reverse.mp ha)
  rw [incrementLastByte, hdrop]
  dsimp only
  rw [List.reverse_reverse]

theorem incrementLastByte_of_all_max (h : ∀ c ∈ pfx.toList, c.toNat = 0x10FFFF) : incrementLastByte pfx = pfx := by
  have hdrop : pfx.toList.reverse.dropWhile (·.toNat = 0x10FFFF) = [] :=
    List.dropWhile_eq_nil_iff.mpr fun a ha => decide_eq_true (h a (List.mem_reverse.mp ha))
  rw [incrementLastByte, hdrop]

theorem startsWith_iff_range (h : ∃ c ∈ pfx.toList, c.toNat ≠ 0x10FFFF) :
    pfx.toList <+: key.toList ↔ pfx ≤ key ∧ key < incrementLastByte pfx := by
  obtain ⟨before, c, tops, hpfx, hc, htops⟩ := exists_last_below h
  rw [incrementLastByte_eq hpfx hc htops, String.le_iff_toList_le, String.lt_iff_toList_lt, String.toList_ofList, hpfx]
  exact prefix_iff_range (covBy_nextChar hc) fun a ha => isTop_of_max (htops a ha)

theorem isLeast_incrementLastByte (h : ∃ c ∈ pfx.toList, c.toNat ≠ 0x10FFFF) :
    IsLeast {t : String | ∀ s : String, pfx.toList <+: s.toList → s < t} (incrementLastByte pfx) := by
  refine ⟨fun s hs => ((startsWith_iff_range h).mp hs).2, fun t ht => ?_⟩
  by_contra hlt
  have hstart : pfx < t := ht pfx List.prefix_rfl
  exact lt_irrefl t (ht t ((startsWith_iff_range h).mpr ⟨hstart.le, not_le.mp hlt⟩))

theorem startsWith_iff_of_all_max (h : ∀ c ∈ pfx.toList, c.toNat = 0x10FFFF) :
    pfx.toList <+: key.toList ↔ pfx ≤ key := by
  rw [String.le_iff_toList_le]
  exact prefix_iff_of_tops fun a ha => isTop_of_max (h a ha)

/-! ### Scans of the keys -/

section Scans
variable {columns : Dict String FstSet} {column : String} {fst : FstSet}

/-- The keys of a range of an FST, which compares their bytes. -/
def fstRange (fst : FstSet) (lower : String) (upper : Option String) : FstSet :=
  fst.filter fun key => utf8Bytes lower ≤ utf8Bytes key ∧ upper.all (fun u => utf8Bytes key < utf8Bytes u) = true

theorem mightContainPrefix_iff_fstRange (hcolumn : columns.lookup column = some fst) (hpfx : pfx ≠ "") :
    mightContainPrefix columns column pfx = true ↔
      (fstRange fst pfx (if incrementLastByte pfx = pfx then none else some (incrementLastByte pfx))).Nonempty := by
  rw [mightContainPrefix, if_neg hpfx, hcolumn]
  dsimp only
  rw [Finset.Nonempty]
  simp only [fstRange, Finset.mem_filter, utf8Bytes_le_iff]
  split
  · simp
  · simp [utf8Bytes_lt_iff]

theorem mightContainPrefix_iff_startsWith (hcolumn : columns.lookup column = some fst) (hpfx : pfx ≠ "") :
    mightContainPrefix columns column pfx = true ↔ ∃ key ∈ fst, pfx.toList <+: key.toList := by
  rw [mightContainPrefix, if_neg hpfx, hcolumn]
  dsimp only
  by_cases hmax : ∃ c ∈ pfx.toList, c.toNat ≠ 0x10FFFF
  · have hne : incrementLastByte pfx ≠ pfx := by
      have hlt : pfx < incrementLastByte pfx := (isLeast_incrementLastByte hmax).1 pfx List.prefix_rfl
      exact hlt.ne'
    rw [if_neg hne, decide_eq_true_eq]
    exact exists_congr fun key => and_congr_right fun _ => (startsWith_iff_range hmax).symm
  · have hall : ∀ c ∈ pfx.toList, c.toNat = 0x10FFFF := by simpa using hmax
    rw [if_pos (incrementLastByte_of_all_max hall), decide_eq_true_eq]
    exact exists_congr fun key => and_congr_right fun _ => (startsWith_iff_of_all_max hall).symm

/-- A key with the prefix is never missed, and unless the prefix has only greatest characters nothing else is found;
    its increment is, as characters and as bytes, the least text above all texts with the prefix. -/
theorem mightContainPrefix_exact (file : FileSkipIndex) (hcolumn : file.columnValues.lookup column = some fst)
    (pfx : String) :
    ((∃ key ∈ fst, pfx.toList <+: key.toList) → mightContainPrefix file.columnValues column pfx = true) ∧
    ((∃ c ∈ pfx.toList, c.toNat ≠ 0x10FFFF) →
      (mightContainPrefix file.columnValues column pfx = true → ∃ key ∈ fst, pfx.toList <+: key.toList) ∧
      IsLeast {t : String | ∀ s : String, pfx.toList <+: s.toList → s < t} (incrementLastByte pfx) ∧
      (∀ s : String, pfx.toList <+: s.toList → utf8Bytes s < utf8Bytes (incrementLastByte pfx)) ∧
      ∀ t : String, (∀ s : String, pfx.toList <+: s.toList → utf8Bytes s < utf8Bytes t) →
        utf8Bytes (incrementLastByte pfx) ≤ utf8Bytes t) := by
  constructor
  · intro hkey
    by_cases hpfx : pfx = ""
    · rw [mightContainPrefix, if_pos hpfx]
    · exact (mightContainPrefix_iff_startsWith hcolumn hpfx).mpr hkey
  · intro hbelow
    have hpfx : pfx ≠ "" := by
      rintro rfl
      obtain ⟨c, hc, -⟩ := hbelow
      exact absurd hc List.not_mem_nil
    have hleast := isLeast_incrementLastByte hbelow
    refine ⟨(mightContainPrefix_iff_startsWith hcolumn hpfx).mp, hleast, ?_, ?_⟩
    · exact fun s hs => utf8Bytes_lt_iff.mpr (hleast.1 s hs)
    · exact fun t ht => utf8Bytes_le_iff.mpr (hleast.2 fun s hs => utf8Bytes_lt_iff.mp (ht s hs))

def namesIndex : FileSkipIndex := ⟨"names.parquet", Dict.ofPairs [("name", {"\ud7ffz", "\ue000"})]⟩

/-- The increment of U+D7FF goes over the surrogates. -/
theorem mightContainPrefix_exact_gap :
    mightContainPrefix namesIndex.columnValues "name" "\ud7ff" = true ∧
      utf8Bytes "\ud7ffz" < utf8Bytes (incrementLastByte "\ud7ff") := by
  have hexact := @mightContainPrefix_exact "name" {"\ud7ffz", "\ue000"} namesIndex rfl "\ud7ff"
  have hbelow : ∃ c ∈ "\ud7ff".toList, c.toNat ≠ 0x10FFFF := ⟨'\ud7ff', List.mem_cons_self, by decide⟩
  exact ⟨hexact.1 ⟨"\ud7ffz", by decide, by decide⟩, (hexact.2 hbelow).2.2.1 "\ud7ffz" (by decide)⟩

end Scans

end Reiver.Pond
