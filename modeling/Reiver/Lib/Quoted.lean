import Mathlib.Data.List.Basic

/-! Quoted literals in which a quote is doubled and a backslash begins an escape. A lexicon says what each escape
    denotes. A text is printed with its quotes doubled and its backslashes as they are; it is read back as itself
    exactly if its backslashes mean themselves (`readQuoted_printQuoted_iff`). -/

namespace Reiver

/-- What a backslash and the character after it denote. -/
inductive Escape where
  /-- Themselves. -/
  | kept
  | char (c : Char)
  | nothing
  /-- The character whose number follows in two hexadecimal digits. -/
  | hex
deriving DecidableEq

/-- The escapes of a language. A backslash escapes itself and the quote. -/
structure Lexicon where
  escape : Char → Escape
  backslash : escape '\\' = .char '\\'
  quote : escape '\'' = .char '\''

def hexValue (c : Char) : Option Nat :=
  if '0' ≤ c ∧ c ≤ '9' then some (c.toNat - '0'.toNat)
  else if 'a' ≤ c ∧ c ≤ 'f' then some (c.toNat - 'a'.toNat + 10)
  else if 'A' ≤ c ∧ c ≤ 'F' then some (c.toNat - 'A'.toNat + 10)
  else none

variable {lexicon other : Lexicon} {v w cs rest out : List Char}

/-- What is read of a literal behind its opening quote: its value, and what follows the closing quote. -/
def readQuoted (lexicon : Lexicon) : List Char → Option (List Char × List Char)
  | [] => none
  | c :: cs =>
    if c = '\'' then
      match cs with
      | d :: cs' =>
        if d = '\'' then (readQuoted lexicon cs').map fun r => ('\'' :: r.1, r.2) else some ([], d :: cs')
      | [] => some ([], [])
    else if c = '\\' then
      match cs with
      | [] => none
      | d :: cs' =>
        match lexicon.escape d with
        | .kept => (readQuoted lexicon cs').map fun r => ('\\' :: d :: r.1, r.2)
        | .char e => (readQuoted lexicon cs').map fun r => (e :: r.1, r.2)
        | .nothing => readQuoted lexicon cs'
        | .hex =>
          match cs' with
          | h :: l :: cs'' =>
            match hexValue h, hexValue l with
            | some high, some low => (readQuoted lexicon cs'').map fun r => (Char.ofNat (16 * high + low) :: r.1, r.2)
            | _, _ => none
          | _ => none
    else (readQuoted lexicon cs).map fun r => (c :: r.1, r.2)

attribute [grind =] readQuoted.eq_def

def double (c : Char) : List Char := if c = '\'' then ['\'', '\''] else [c]

def printQuoted (v : List Char) : List Char := v.flatMap double

/-- Every backslash is followed by a character with which it means itself. -/
def plain (lexicon : Lexicon) : List Char → Bool
  | [] => true
  | c :: v => (c ≠ '\\' || v.head?.any fun d => lexicon.escape d = .kept) && plain lexicon v

/-! ### A plain text is read as itself -/

theorem kept_ne {d : Char} (h : lexicon.escape d = .kept) : d ≠ '\'' ∧ d ≠ '\\' := by
  constructor
  · rintro rfl
    rw [lexicon.quote] at h
    cases h
  · rintro rfl
    rw [lexicon.backslash] at h
    cases h

theorem readQuoted_end (hrest : rest.head? ≠ some '\'') : readQuoted lexicon ('\'' :: rest) = some ([], rest) := by
  cases rest with
  | nil => rfl
  | cons d rest =>
    have hd : d ≠ '\'' := fun h => hrest (h ▸ rfl)
    rw [readQuoted.eq_def]
    dsimp only
    rw [if_pos rfl, if_neg hd]

theorem readQuoted_double : readQuoted lexicon ('\'' :: '\'' :: cs) =
    (readQuoted lexicon cs).map fun r => ('\'' :: r.1, r.2) := by
  rw [readQuoted.eq_def]
  dsimp only
  rw [if_pos rfl, if_pos rfl]

theorem readQuoted_char {c : Char} (hquote : c ≠ '\'') (hbackslash : c ≠ '\\') :
    readQuoted lexicon (c :: cs) = (readQuoted lexicon cs).map fun r => (c :: r.1, r.2) := by
  rw [readQuoted.eq_def]
  dsimp only
  rw [if_neg hquote, if_neg hbackslash]

theorem readQuoted_kept {d : Char} (h : lexicon.escape d = .kept) :
    readQuoted lexicon ('\\' :: d :: cs) = (readQuoted lexicon cs).map fun r => ('\\' :: d :: r.1, r.2) := by
  rw [readQuoted.eq_def]
  dsimp only
  rw [if_neg (by decide), if_pos rfl, h]

theorem plain_cons {c : Char} :
    plain lexicon (c :: v) = true ↔ (c = '\\' → ∃ d ∈ v.head?, lexicon.escape d = .kept) ∧ plain lexicon v = true := by
  rw [plain, Bool.and_eq_true, Bool.or_eq_true, decide_eq_true_iff, ← imp_iff_not_or, Option.any_eq_true]
  simp

theorem readQuoted_of_plain (h : plain lexicon v = true) (hrest : rest.head? ≠ some '\'') :
    readQuoted lexicon (printQuoted v ++ '\'' :: rest) = some (v, rest) := by
  -- A backslash and the character after it are read together.
  induction hn : v.length using Nat.strongRecOn generalizing v with
  | ind n ih =>
    subst hn
    cases v with
    | nil => exact readQuoted_end hrest
    | cons c v =>
      obtain ⟨hkept, hv⟩ := plain_cons.mp h
      have ihv := ih v.length (Nat.lt_succ_self _) hv rfl
      rw [printQuoted, List.flatMap_cons, ← printQuoted, double]
      by_cases hquote : c = '\''
      · subst hquote
        rw [if_pos rfl]
        exact readQuoted_double.trans (congrArg _ ihv)
      · rw [if_neg hquote, List.cons_append, List.nil_append, List.cons_append]
        by_cases hbackslash : c = '\\'
        · subst hbackslash
          obtain ⟨d, hd, hescape⟩ := hkept rfl
          obtain ⟨w, rfl⟩ : ∃ w, v = d :: w := by
            cases v with
            | nil => cases hd
            | cons d' w => exact ⟨w, by cases hd; rfl⟩
          obtain ⟨-, hw⟩ := plain_cons.mp hv
          rw [printQuoted, List.flatMap_cons, ← printQuoted, double, if_neg (kept_ne hescape).1, List.cons_append,
            List.nil_append, List.cons_append, readQuoted_kept hescape,
            ih w.length (Nat.lt_trans (Nat.lt_succ_self _) (Nat.lt_succ_self _)) hw rfl]
          rfl
        · rw [readQuoted_char hquote hbackslash, ihv]
          rfl

/-! ### What is read as itself is plain -/

/-- Twice the length of what a text may denote: a doubled quote counts as one character. -/
def weight : List Char → Nat
  | [] => 0
  | c :: cs => (if c = '\'' then 1 else 2) + weight cs

theorem weight_cons {c : Char} : weight (c :: cs) = (if c = '\'' then 1 else 2) + weight cs := rfl

theorem weight_printQuoted : weight (printQuoted v) = 2 * v.length := by
  induction v with
  | nil => rfl
  | cons c v ih =>
    rw [printQuoted, List.flatMap_cons, ← printQuoted, double]
    split_ifs with hquote
    · rw [List.cons_append, List.cons_append, List.nil_append, weight_cons, weight_cons, if_pos rfl, ih,
        List.length_cons]
      omega
    · rw [List.cons_append, List.nil_append, weight_cons, if_neg hquote, ih, List.length_cons]
      omega

theorem weight_pos {c : Char} : 1 ≤ if c = '\'' then 1 else 2 := by
  split_ifs <;> decide

theorem map_eq_some {f : List Char → List Char}
    (h : ((readQuoted lexicon cs).map fun r => (f r.1, r.2)) = some (out, rest)) :
    ∃ out', readQuoted lexicon cs = some (out', rest) ∧ out = f out' := by
  obtain ⟨⟨out', rest'⟩, hread, heq⟩ := Option.map_eq_some_iff.mp h
  cases heq
  exact ⟨out', hread, rfl⟩

/-- What is read is a text and its closing quote. It denotes at most what its weight allows, and that much only if it is
    plain. -/
theorem exists_used (h : readQuoted lexicon cs = some (out, rest)) :
    ∃ used, cs = used ++ '\'' :: rest ∧ 2 * out.length ≤ weight used ∧
      (2 * out.length = weight used → plain lexicon used = true) := by
  fun_induction readQuoted lexicon cs generalizing out with
  | case1 | case5 | case10 | case11 => cases h
  | case2 cs ih =>
    obtain ⟨out', hread, rfl⟩ := map_eq_some h
    obtain ⟨used, rfl, hle, hplain⟩ := ih hread
    refine ⟨'\'' :: '\'' :: used, rfl, ?_, fun heq => ?_⟩
    · rw [weight_cons, weight_cons, if_pos rfl, List.length_cons]
      omega
    · rw [weight_cons, weight_cons, if_pos rfl, List.length_cons] at heq
      have hquote : ('\'' : Char) ≠ '\\' := by decide
      rw [plain_cons, plain_cons]
      exact ⟨fun h => absurd h hquote, fun h => absurd h hquote, hplain (by omega)⟩
  | case3 | case4 =>
    cases h
    exact ⟨[], rfl, Nat.le_refl _, fun _ => rfl⟩
  | case6 d cs hescape _ ih =>
    obtain ⟨out', hread, rfl⟩ := map_eq_some (f := fun r => '\\' :: d :: r) h
    obtain ⟨used, rfl, hle, hplain⟩ := ih hread
    obtain ⟨hquote, hbackslash⟩ := kept_ne hescape
    refine ⟨'\\' :: d :: used, rfl, ?_, fun heq => ?_⟩
    · rw [weight_cons, weight_cons, if_neg (by decide), if_neg hquote, List.length_cons, List.length_cons]
      omega
    · rw [weight_cons, weight_cons, if_neg (by decide), if_neg hquote, List.length_cons, List.length_cons] at heq
      rw [plain_cons, plain_cons]
      exact ⟨fun _ => ⟨d, rfl, hescape⟩, fun h => absurd h hbackslash, hplain (by omega)⟩
  | case7 d cs e hescape _ ih =>
    obtain ⟨out', hread, rfl⟩ := map_eq_some h
    obtain ⟨used, rfl, hle, -⟩ := ih hread
    have hd := weight_pos (c := d)
    refine ⟨'\\' :: d :: used, rfl, ?_, fun heq => ?_⟩
    · rw [weight_cons, weight_cons, if_neg (by decide), List.length_cons]
      omega
    · rw [weight_cons, weight_cons, if_neg (by decide), List.length_cons] at heq
      omega
  | case8 d cs hescape _ ih =>
    obtain ⟨used, rfl, hle, -⟩ := ih h
    have hd := weight_pos (c := d)
    refine ⟨'\\' :: d :: used, rfl, ?_, fun heq => ?_⟩
    · rw [weight_cons, weight_cons, if_neg (by decide)]
      omega
    · rw [weight_cons, weight_cons, if_neg (by decide)] at heq
      omega
  | case9 d hescape high low cs _ _ _ _ _ ih =>
    obtain ⟨out', hread, rfl⟩ := map_eq_some h
    obtain ⟨used, rfl, hle, -⟩ := ih hread
    have hd := weight_pos (c := d)
    refine ⟨'\\' :: d :: high :: low :: used, rfl, ?_, fun heq => ?_⟩
    · rw [weight_cons, weight_cons, weight_cons, weight_cons, if_neg (by decide), List.length_cons]
      omega
    · rw [weight_cons, weight_cons, weight_cons, weight_cons, if_neg (by decide), List.length_cons] at heq
      omega
  | case12 c cs hquote hbackslash ih =>
    obtain ⟨out', hread, rfl⟩ := map_eq_some h
    obtain ⟨used, rfl, hle, hplain⟩ := ih hread
    refine ⟨c :: used, rfl, ?_, fun heq => ?_⟩
    · rw [weight_cons, if_neg hquote, List.length_cons]
      omega
    · rw [weight_cons, if_neg hquote, List.length_cons] at heq
      rw [plain_cons]
      exact ⟨fun h => absurd h hbackslash, hplain (by omega)⟩

theorem head?_printQuoted : (printQuoted v).head? = v.head? := by
  cases v with
  | nil => rfl
  | cons c v =>
    rw [printQuoted, List.flatMap_cons, double]
    split_ifs with hquote
    · rw [hquote]
      rfl
    · rfl

theorem plain_printQuoted : plain lexicon (printQuoted v) = plain lexicon v := by
  rw [Bool.eq_iff_iff]
  induction v with
  | nil => rfl
  | cons c v ih =>
    rw [printQuoted, List.flatMap_cons, ← printQuoted, double, plain_cons]
    split_ifs with hquote
    · subst hquote
      have hne : ('\'' : Char) ≠ '\\' := by decide
      rw [List.cons_append, List.cons_append, List.nil_append, plain_cons, plain_cons, ih]
      exact ⟨fun h => ⟨fun heq => absurd heq hne, h.2.2⟩,
        fun h => ⟨fun heq => absurd heq hne, fun heq => absurd heq hne, h.2⟩⟩
    · rw [List.cons_append, List.nil_append, plain_cons, head?_printQuoted, ih]

theorem readQuoted_printQuoted_iff (hrest : rest.head? ≠ some '\'') :
    readQuoted lexicon (printQuoted v ++ '\'' :: rest) = some (v, rest) ↔ plain lexicon v = true := by
  constructor
  · intro h
    obtain ⟨used, hused, -, hplain⟩ := exists_used h
    have heq : printQuoted v = used := List.append_cancel_right hused
    rw [← plain_printQuoted, heq]
    exact hplain (heq ▸ weight_printQuoted.symm)
  · exact fun h => readQuoted_of_plain h hrest

/-! ### Two lexicons -/

/-- The characters behind the backslashes of a text, a backslash and the character after it taken together. -/
def escaped : List Char → List Char
  | [] => []
  | c :: cs =>
    if c = '\\' then
      match cs with
      | [] => []
      | d :: cs' => d :: escaped cs'
    else escaped cs

theorem escaped_char {c : Char} (h : c ≠ '\\') : escaped (c :: cs) = escaped cs := by
  rw [escaped.eq_def]
  exact if_neg h

theorem escaped_backslash {d : Char} : escaped ('\\' :: d :: cs) = d :: escaped cs := by
  rw [escaped.eq_def]
  exact if_pos rfl

theorem ne_of_hexValue {c : Char} {n : Nat} (h : hexValue c = some n) : c ≠ '\\' := by
  rintro rfl
  cases h

/-- Lexicons that agree on the escapes of a text read it alike. -/
theorem readQuoted_congr (h : ∀ d ∈ escaped cs, lexicon.escape d = other.escape d) :
    readQuoted lexicon cs = readQuoted other cs := by
  have hquote : ('\'' : Char) ≠ '\\' := by decide
  fun_induction readQuoted lexicon cs with
  | case1 | case4 | case5 => rfl
  | case2 cs ih =>
    rw [escaped_char hquote, escaped_char hquote] at h
    rw [readQuoted_double, ih h]
  | case3 d cs hd =>
    have hrest : (d :: cs).head? ≠ some '\'' := fun heq => hd (Option.some.inj heq)
    exact (readQuoted_end hrest).symm
  | case6 d cs hescape _ ih =>
    rw [escaped_backslash] at h
    rw [readQuoted_kept (h d List.mem_cons_self ▸ hescape), ih fun e he => h e (List.mem_cons_of_mem _ he)]
  | case7 d cs e hescape _ ih =>
    rw [escaped_backslash] at h
    rw [ih fun e he => h e (List.mem_cons_of_mem _ he), readQuoted.eq_def other ('\\' :: d :: cs)]
    dsimp only
    rw [if_neg hquote.symm, if_pos rfl, ← h d List.mem_cons_self, hescape]
  | case8 d cs hescape _ ih =>
    rw [escaped_backslash] at h
    rw [ih fun e he => h e (List.mem_cons_of_mem _ he), readQuoted.eq_def other ('\\' :: d :: cs)]
    dsimp only
    rw [if_neg hquote.symm, if_pos rfl, ← h d List.mem_cons_self, hescape]
  | case9 d hescape high low cs _ _ hlow hhigh _ ih =>
    rw [escaped_backslash, escaped_char (ne_of_hexValue hhigh), escaped_char (ne_of_hexValue hlow)] at h
    rw [ih fun e he => h e (List.mem_cons_of_mem _ he), readQuoted.eq_def other ('\\' :: d :: high :: low :: cs)]
    dsimp only
    rw [if_neg hquote.symm, if_pos rfl, ← h d List.mem_cons_self, hescape]
    dsimp only
    rw [hlow, hhigh]
  | case10 d hescape high low cs hnone _ =>
    rw [escaped_backslash] at h
    rw [readQuoted.eq_def other]
    dsimp only
    rw [if_neg hquote.symm, if_pos rfl, ← h d List.mem_cons_self, hescape]
    dsimp only
    split
    · next hhigh hlow => exact (hnone _ _ hhigh hlow).elim
    · rfl
  | case11 d cs hescape hshort _ =>
    rw [escaped_backslash] at h
    rw [readQuoted.eq_def other]
    dsimp only
    rw [if_neg hquote.symm, if_pos rfl, ← h d List.mem_cons_self, hescape]
    dsimp only
    split
    · exact (hshort _ _ _ rfl).elim
    · rfl
  | case12 c cs hne hbackslash ih =>
    rw [escaped_char hbackslash] at h
    rw [readQuoted_char hne hbackslash, ih h]

end Reiver
