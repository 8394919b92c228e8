import Mathlib.Data.List.Infix

/-! LIKE patterns: a percent sign stands for any text and an underscore for any character. A backslash takes its meaning
    from the one of these, or from the backslash, that follows it. -/

namespace Reiver

inductive LikeItem where
  | anyText
  | anyChar
  | char (c : Char)

def likeItems : List Char → List LikeItem
  | [] => []
  | c :: rest =>
    if c = '%' then .anyText :: likeItems rest
    else if c = '_' then .anyChar :: likeItems rest
    else if c = '\\' then
      match rest with
      | [] => [.char c]
      | d :: rest' =>
        if d = '%' ∨ d = '_' ∨ d = '\\' then .char d :: likeItems rest' else .char c :: likeItems (d :: rest')
    else .char c :: likeItems rest

def itemsMatch : List LikeItem → List Char → Bool
  | [], s => s.isEmpty
  | .anyText :: items, s => s.tails.any (itemsMatch items)
  | .anyChar :: items, s => match s with | [] => false | _ :: s => itemsMatch items s
  | .char c :: items, s => match s with | [] => false | d :: s => d = c && itemsMatch items s

attribute [grind =] likeItems.eq_def
attribute [grind =] itemsMatch

def likeMatches (pattern text : String) : Bool := itemsMatch (likeItems pattern.toList) text.toList

def PlainLike (l : List Char) : Prop := ∀ c ∈ l, c ≠ '%' ∧ c ≠ '_' ∧ c ≠ '\\'

variable {l r s : List Char}

theorem likeItems_append (hl : PlainLike l) : likeItems (l ++ r) = l.map .char ++ likeItems r := by
  induction l with
  | nil => rfl
  | cons c l ih =>
    obtain ⟨⟨hpercent, hunder, hback⟩, hl⟩ := List.forall_mem_cons.mp hl
    rw [List.cons_append, likeItems.eq_def]
    show (if c = '%' then _ else if c = '_' then _ else if c = '\\' then _ else _) = _
    rw [if_neg hpercent, if_neg hunder, if_neg hback, ih hl]
    rfl

theorem itemsMatch_append {items : List LikeItem} (h : itemsMatch (l.map .char ++ items) s = true) : l <+: s := by
  induction l generalizing s with
  | nil => exact List.nil_prefix
  | cons c l ih =>
    cases s with
    | nil => cases h
    | cons d s =>
      obtain ⟨hd, htail⟩ := Bool.and_eq_true_iff.mp h
      rw [of_decide_eq_true hd]
      exact (List.prefix_cons_inj c).mpr (ih htail)

theorem prefix_of_matches (hl : PlainLike l) (h : itemsMatch (likeItems (l ++ r)) s = true) : l <+: s := by
  rw [likeItems_append hl] at h
  exact itemsMatch_append h

theorem infix_of_matches (hl : PlainLike l) (h : itemsMatch (likeItems ('%' :: (l ++ r))) s = true) : l <:+: s := by
  have hitems : likeItems ('%' :: (l ++ r)) = .anyText :: likeItems (l ++ r) := by
    rw [likeItems.eq_def]
    exact if_pos rfl
  rw [hitems] at h
  obtain ⟨t, ht, h⟩ := List.any_eq_true.mp h
  exact (prefix_of_matches hl h).isInfix.trans ((List.mem_tails t s).mp ht).isInfix

end Reiver

/-! # LIKE patterns made of a text

A text with its wildcards and its backslashes escaped stands for itself. Where its backslashes are left as they are, it
does so exactly if each of them is followed by a character with which it means itself
(`matches_wildcardsEscaped_iff`). -/

namespace Reiver

def isWildcard (c : Char) : Bool := c = '%' || c = '_'

def escapeChar (c : Char) : List Char := if isWildcard c || c = '\\' then ['\\', c] else [c]

def escapeLike (l : List Char) : List Char := l.flatMap escapeChar

def escapeWildcard (c : Char) : List Char := if isWildcard c then ['\\', c] else [c]

/-- Wildcards escaped, backslashes as they are. -/
def escapeWildcards (l : List Char) : List Char := l.flatMap escapeWildcard

/-- Every backslash is followed by a character that has no meaning. -/
def tame : List Char → Bool
  | [] => true
  | c :: l => (c ≠ '\\' || l.head?.any fun d => !isWildcard d && d ≠ '\\') && tame l

variable {l r x : List Char} {c d : Char} {items : List LikeItem}

/-! ### Reading a pattern -/

theorem likeItems_percent : likeItems ('%' :: r) = .anyText :: likeItems r := by
  rw [likeItems.eq_def]
  exact if_pos rfl

theorem likeItems_underscore : likeItems ('_' :: r) = .anyChar :: likeItems r := by
  rw [likeItems.eq_def]
  rfl

theorem likeItems_char (hwild : isWildcard c = false) (hback : c ≠ '\\') :
    likeItems (c :: r) = .char c :: likeItems r := by
  obtain ⟨hpercent, hunder⟩ : c ≠ '%' ∧ c ≠ '_' := by simpa [isWildcard] using hwild
  rw [likeItems.eq_def]
  simp [hpercent, hunder, hback]

theorem likeItems_escaped (h : isWildcard d = true ∨ d = '\\') :
    likeItems ('\\' :: d :: r) = .char d :: likeItems r := by
  have hd : d = '%' ∨ d = '_' ∨ d = '\\' := by
    simpa [isWildcard, or_assoc] using h
  rw [likeItems.eq_def]
  simp [hd]

theorem likeItems_kept (hwild : isWildcard d = false) (hback : d ≠ '\\') :
    likeItems ('\\' :: d :: r) = .char '\\' :: likeItems (d :: r) := by
  obtain ⟨hpercent, hunder⟩ : d ≠ '%' ∧ d ≠ '_' := by simpa [isWildcard] using hwild
  have hd : ¬(d = '%' ∨ d = '_' ∨ d = '\\') := by simp [hpercent, hunder, hback]
  rw [likeItems.eq_def]
  simp [hd]

theorem likeItems_escapeLike : likeItems (escapeLike l ++ r) = l.map .char ++ likeItems r := by
  induction l with
  | nil => rfl
  | cons c l ih =>
    rw [escapeLike, List.flatMap_cons, ← escapeLike, escapeChar, List.append_assoc]
    split_ifs with h
    · have hc : isWildcard c = true ∨ c = '\\' := by simpa using h
      exact (likeItems_escaped hc).trans (congrArg _ ih)
    · obtain ⟨hwild, hback⟩ : isWildcard c = false ∧ c ≠ '\\' := by simpa using h
      exact (likeItems_char hwild hback).trans (congrArg _ ih)

/-! ### What a pattern matches -/

/-- A text that fills a pattern: nothing for any text, an `a` for any character. -/
def fill : List LikeItem → List Char
  | [] => []
  | .anyText :: items => fill items
  | .anyChar :: items => 'a' :: fill items
  | .char c :: items => c :: fill items

theorem itemsMatch_anyText_iff :
    itemsMatch (.anyText :: items) x = true ↔ ∃ t, t <:+ x ∧ itemsMatch items t = true := by
  rw [itemsMatch, List.any_eq_true]
  exact exists_congr fun t => and_congr_left' (List.mem_tails t x)

theorem itemsMatch_fill : itemsMatch items (fill items) = true := by
  induction items with
  | nil => rfl
  | cons item items ih =>
    cases item with
    | anyText => exact itemsMatch_anyText_iff.mpr ⟨fill items, List.suffix_rfl, ih⟩
    | anyChar => exact ih
    | char c => simpa [itemsMatch, fill] using ih

theorem infix_fill (h : ∀ x, itemsMatch (.anyText :: items) x = true ↔ r <:+: x) : r <:+: fill items :=
  (h _).mp (itemsMatch_anyText_iff.mpr ⟨fill items, List.suffix_rfl, itemsMatch_fill⟩)

theorem itemsMatch_anyText_nil : itemsMatch [.anyText] x = true :=
  itemsMatch_anyText_iff.mpr ⟨[], List.nil_suffix, rfl⟩

theorem itemsMatch_chars_iff : itemsMatch (l.map .char ++ [.anyText]) x = true ↔ l <+: x := by
  induction l generalizing x with
  | nil => exact iff_of_true itemsMatch_anyText_nil List.nil_prefix
  | cons c l ih =>
    cases x with
    | nil => exact iff_of_false Bool.false_ne_true (by simp)
    | cons d x =>
      rw [List.map_cons, List.cons_append, itemsMatch, Bool.and_eq_true, decide_eq_true_iff, ih, List.cons_prefix_cons]
      exact and_congr_left' eq_comm

theorem itemsMatch_contains_iff : itemsMatch (.anyText :: (l.map .char ++ [.anyText])) x = true ↔ l <:+: x := by
  rw [itemsMatch_anyText_iff, List.infix_iff_prefix_suffix]
  refine exists_congr fun t => ?_
  rw [itemsMatch_chars_iff, and_comm]

/-! ### Backslashes as they are -/

theorem tame_cons : tame (c :: l) = true ↔
    (c = '\\' → ∃ d ∈ l.head?, isWildcard d = false ∧ d ≠ '\\') ∧ tame l = true := by
  rw [tame, Bool.and_eq_true, Bool.or_eq_true, decide_eq_true_iff, ← imp_iff_not_or, Option.any_eq_true]
  simp

theorem escapeWildcards_cons : escapeWildcards (c :: l) = escapeWildcard c ++ escapeWildcards l := rfl

theorem likeItems_escapeWildcard (hback : c ≠ '\\') :
    likeItems (escapeWildcards (c :: l) ++ r) = .char c :: likeItems (escapeWildcards l ++ r) := by
  rw [escapeWildcards_cons, List.append_assoc, escapeWildcard]
  split_ifs with hwild
  · exact likeItems_escaped (.inl hwild)
  · exact likeItems_char (eq_false_of_ne_true hwild) hback

theorem likeItems_backslash (hwild : isWildcard d = false) (hback : d ≠ '\\') :
    likeItems (escapeWildcards ('\\' :: d :: l) ++ r) = .char '\\' :: likeItems (escapeWildcards (d :: l) ++ r) := by
  rw [escapeWildcards_cons, escapeWildcards_cons, escapeWildcard, escapeWildcard, if_neg (by decide),
    if_neg (by simp [hwild])]
  exact likeItems_kept hwild hback

theorem likeItems_of_tame (h : tame l = true) :
    likeItems (escapeWildcards l ++ r) = l.map .char ++ likeItems r := by
  induction l with
  | nil => rfl
  | cons c l ih =>
    obtain ⟨hnext, hl⟩ := tame_cons.mp h
    by_cases hback : c = '\\'
    · subst hback
      obtain ⟨d, hd, hwild, hback⟩ := hnext rfl
      obtain ⟨u, rfl⟩ : ∃ u, l = d :: u := by
        cases l with
        | nil => cases hd
        | cons e u => exact ⟨u, by cases hd; rfl⟩
      rw [likeItems_backslash hwild hback, ih hl]
      rfl
    · rw [likeItems_escapeWildcard hback, ih hl]
      rfl

/-- The text that fills a pattern is no longer than the text the pattern is made of, and is this one only if it is
    tame. -/
theorem fill_escapeWildcards :
    (fill (likeItems (escapeWildcards l ++ ['%']))).length ≤ l.length ∧
      (fill (likeItems (escapeWildcards l ++ ['%'])) = l → tame l = true) := by
  -- A backslash takes the character after it along.
  induction hn : l.length using Nat.strongRecOn generalizing l with
  | ind n ih =>
    subst hn
    cases l with
    | nil => exact ⟨Nat.le_refl _, fun _ => rfl⟩
    | cons c l =>
      have ihl := ih l.length (Nat.lt_succ_self _) rfl
      by_cases hback : c = '\\'
      · subst hback
        cases l with
        | nil => exact ⟨Nat.le_refl _, fun h => absurd h (by decide)⟩
        | cons d u =>
          have ihu := ih u.length (Nat.lt_succ_of_lt (Nat.lt_succ_self _)) rfl
          by_cases hd : isWildcard d = true ∨ d = '\\'
          · -- the backslash escapes the one that was put before a wildcard, or the one that follows
            have hpercent : fill (likeItems ('\\' :: '\\' :: '%' :: (escapeWildcards u ++ ['%']))) =
                '\\' :: fill (likeItems (escapeWildcards u ++ ['%'])) := by
              rw [likeItems_escaped (.inr rfl), likeItems_percent, fill, fill]
            have hunder : fill (likeItems ('\\' :: '\\' :: '_' :: (escapeWildcards u ++ ['%']))) =
                '\\' :: 'a' :: fill (likeItems (escapeWildcards u ++ ['%'])) := by
              rw [likeItems_escaped (.inr rfl), likeItems_underscore, fill, fill]
            have hpair : fill (likeItems ('\\' :: '\\' :: (escapeWildcards u ++ ['%']))) =
                '\\' :: fill (likeItems (escapeWildcards u ++ ['%'])) := by
              rw [likeItems_escaped (.inr rfl), fill]
            have hshort {v : List Char} (h : '\\' :: fill (likeItems (escapeWildcards u ++ ['%'])) = v) :
                v.length ≤ u.length + 1 := by
              rw [← h]
              exact Nat.succ_le_succ ihu.1
            have hcases : d = '%' ∨ d = '_' ∨ d = '\\' := by simpa [isWildcard, or_assoc] using hd
            rcases hcases with rfl | rfl | rfl
            · exact ⟨Nat.le_succ_of_le (hshort hpercent.symm), fun h =>
                absurd (hshort (hpercent.symm.trans h)) (Nat.not_succ_le_self _)⟩
            · refine ⟨hunder ▸ Nat.succ_le_succ (Nat.succ_le_succ ihu.1), fun h => ?_⟩
              have hne := (List.cons.inj (List.cons.inj (hunder.symm.trans h)).2).1
              exact absurd hne (by decide)
            · exact ⟨Nat.le_succ_of_le (hshort hpair.symm), fun h =>
                absurd (hshort (hpair.symm.trans h)) (Nat.not_succ_le_self _)⟩
          · obtain ⟨hwild, hback⟩ : isWildcard d = false ∧ d ≠ '\\' := by simpa using hd
            rw [likeItems_backslash hwild hback, fill, tame_cons]
            refine ⟨Nat.succ_le_succ ihl.1, fun h => ⟨fun _ => ⟨d, rfl, hwild, hback⟩, ihl.2 (List.cons.inj h).2⟩⟩
      · rw [likeItems_escapeWildcard hback, fill, tame_cons]
        exact ⟨Nat.succ_le_succ ihl.1, fun h => ⟨fun heq => absurd heq hback, ihl.2 (List.cons.inj h).2⟩⟩

/-- The pattern of a text between percent signs, with its backslashes as they are, matches what contains the text
    exactly if the text is tame. -/
theorem contains_iff_tame :
    (∀ x, itemsMatch (likeItems ('%' :: (escapeWildcards l ++ ['%']))) x = true ↔ l <:+: x) ↔ tame l = true := by
  constructor
  · intro h
    rw [likeItems_percent] at h
    have hwithin := infix_fill h
    obtain ⟨hlen, htame⟩ := fill_escapeWildcards (l := l)
    exact htame (hwithin.eq_of_length (Nat.le_antisymm hwithin.length_le hlen)).symm
  · intro h x
    rw [likeItems_percent, likeItems_of_tame h, likeItems_percent]
    exact itemsMatch_contains_iff

theorem not_contains_of_short (h : l.length < r.length) :
    ¬∀ x, itemsMatch (likeItems ('%' :: (escapeWildcards l ++ ['%']))) x = true ↔ r <:+: x := by
  intro hall
  rw [likeItems_percent] at hall
  exact ((infix_fill hall).length_le.trans fill_escapeWildcards.1).not_gt h

theorem contains_escapeLike (x : List Char) :
    itemsMatch (likeItems ('%' :: (escapeLike l ++ ['%']))) x = true ↔ l <:+: x := by
  rw [likeItems_percent, likeItems_escapeLike, likeItems_percent]
  exact itemsMatch_contains_iff

end Reiver
