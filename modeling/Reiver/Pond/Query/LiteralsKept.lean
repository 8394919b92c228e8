import Reiver.Pond.Query.Literals

/-! # Literals that survive

A number is a run of characters that belong to numbers, so it ends where it was printed (`denotes_number`). A string is
read back as itself exactly if it is plain (`denotes_string`). -/

namespace Reiver.Pond

variable {database : Lexicon} {v cs ds rest : List Char}

/-! ### Numbers -/

def Runs (v : List Char) : Prop := ∀ rest, Ends rest → numberRun (v ++ rest) = (v, rest)

theorem numberRun_ends (h : Ends rest) : numberRun rest = ([], rest) := by
  cases rest with
  | nil => rfl
  | cons c cs =>
    obtain ⟨-, hdigit, hpoint, hexponent⟩ := h c rfl
    rw [numberRun.eq_def]
    dsimp only
    rw [if_neg (by simp [hdigit, hpoint]), if_neg (by simp [hexponent])]

theorem runs_nil : Runs [] := fun _ => numberRun_ends

theorem Runs.cons {c : Char} (hc : c.isDigit = true ∨ c = '.') (h : Runs v) : Runs (c :: v) := by
  intro rest hrest
  rw [List.cons_append, numberRun.eq_def]
  dsimp only
  rw [if_pos (by simpa using hc), h rest hrest]

theorem Runs.append (hds : ds.all (·.isDigit) = true) (h : Runs v) : Runs (ds ++ v) := by
  induction ds with
  | nil => exact h
  | cons d ds ih =>
    obtain ⟨hd, hds⟩ := Bool.and_eq_true_iff.mp hds
    exact (ih hds).cons (.inl hd)

theorem runs_digits (hds : ds.all (·.isDigit) = true) : Runs ds := by
  have h := Runs.append hds runs_nil
  rwa [List.append_nil] at h

theorem exponent_ne {e : Char} (h : isExponent e = true) : ¬(e.isDigit || e = '.') = true := by
  rw [isExponent, Bool.or_eq_true, decide_eq_true_iff, decide_eq_true_iff] at h
  rcases h with rfl | rfl <;> decide

theorem Runs.exponent {e d : Char} (he : isExponent e = true) (hd : isSign d = false) (h : Runs (d :: v)) :
    Runs (e :: d :: v) := by
  intro rest hrest
  rw [List.cons_append, List.cons_append, numberRun.eq_def]
  dsimp only
  rw [if_neg (exponent_ne he), if_pos he, if_neg (by simp [hd]), ← List.cons_append, h rest hrest]

theorem Runs.signedExponent {e d : Char} (he : isExponent e = true) (hd : isSign d = true) (h : Runs v) :
    Runs (e :: d :: v) := by
  intro rest hrest
  rw [List.cons_append, List.cons_append, numberRun.eq_def]
  dsimp only
  rw [if_neg (exponent_ne he), if_pos he, if_pos hd, h rest hrest]

theorem runs_isNumericLoop {sawDot sawDigit inExponent : Bool}
    (h : isNumericLoop sawDot sawDigit inExponent v = true) : Runs v := by
  fun_induction isNumericLoop sawDot sawDigit inExponent v with
  | case1 => exact runs_nil
  | case2 sawDot sawDigit b bs ih =>
    obtain ⟨hb, hbs⟩ := Bool.and_eq_true_iff.mp h
    exact (ih hbs).cons (.inl hb)
  | case3 sawDot sawDigit inExponent b bs _ hb ih => exact (ih h).cons (.inl hb)
  | case4 sawDot sawDigit inExponent b bs _ _ hb ih =>
    exact (ih h).cons (.inr (of_decide_eq_true (Bool.and_eq_true_iff.mp hb).1))
  | case5 sawDot sawDigit inExponent b _ _ _ hb d ds hd ih =>
    exact (ih h).signedExponent (Bool.and_eq_true_iff.mp hb).1 hd
  | case6 sawDot sawDigit inExponent b _ _ _ hb d ds hd ih =>
    exact (ih h).exponent (Bool.and_eq_true_iff.mp hb).1 (Bool.eq_false_iff.mpr hd)
  | case7 => cases h
  | case8 => cases h

/-! ### The texts that are taken for numbers -/

theorem runs_parseExponent {exponent : Int} (h : parseExponent cs = some exponent) : Runs cs := by
  cases cs with
  | nil => exact runs_nil
  | cons e cs =>
    rw [parseExponent] at h
    by_cases hguard : (isExponent e && !(dropSign cs).isEmpty && (dropSign cs).all (·.isDigit)) = true
    swap
    · rw [if_neg hguard] at h
      cases h
    obtain ⟨⟨he, hne⟩, hds⟩ : (isExponent e = true ∧ (!(dropSign cs).isEmpty) = true) ∧ _ := by
      rwa [Bool.and_eq_true, Bool.and_eq_true] at hguard
    cases cs with
    | nil => cases hne
    | cons d ds =>
      rw [dropSign] at hds
      by_cases hd : isSign d = true
      · rw [if_pos hd] at hds
        exact (runs_digits hds).signedExponent he hd
      · rw [if_neg hd] at hds
        exact (runs_digits hds).exponent he (Bool.eq_false_iff.mpr hd)

theorem runs_parseFloatText {f : FloatText} (h : parseFloatText cs = some f) : Runs (dropSign cs) := by
  rw [parseFloatText] at h
  dsimp only at h
  rw [← List.takeWhile_append_dropWhile (p := (·.isDigit)) (l := dropSign cs)]
  refine Runs.append List.all_takeWhile ?_
  split at h
  · next cs' hpoint =>
    split_ifs at h
    obtain ⟨exponent, hexponent, -⟩ := Option.map_eq_some_iff.mp h
    rw [hpoint, ← List.takeWhile_append_dropWhile (p := (·.isDigit)) (l := cs')]
    exact (Runs.append List.all_takeWhile (runs_parseExponent hexponent)).cons (.inr rfl)
  · split_ifs at h
    obtain ⟨exponent, hexponent, -⟩ := Option.map_eq_some_iff.mp h
    exact runs_parseExponent hexponent

theorem runs_isNumericLiteral {s : String} (h : isNumericLiteral s = true) :
    dropSign s.toList ≠ [] ∧ Runs (dropSign s.toList) := by
  rw [isNumericLiteral] at h
  split at h
  · cases h
  · next d ds hcs =>
    split_ifs at h
    rw [hcs]
    exact ⟨List.cons_ne_nil _ _, runs_isNumericLoop h⟩
  · next hne _ => exact ⟨hne, runs_isNumericLoop h⟩

theorem runs_parses (h : (parsesI64 cs || parsesU64 cs || parsesFiniteF64 cs) = true) :
    dropSign cs ≠ [] ∧ Runs (dropSign cs) := by
  have hdigits : (!(dropSign cs).isEmpty) = true → (dropSign cs).all (·.isDigit) = true →
      dropSign cs ≠ [] ∧ Runs (dropSign cs) := fun hne hall => ⟨by simpa using hne, runs_digits hall⟩
  rw [Bool.or_eq_true, Bool.or_eq_true] at h
  rcases h with (h | h) | h
  · simp only [parsesI64, Bool.and_eq_true] at h
    exact hdigits h.1.1 h.1.2
  · simp only [parsesU64, Bool.and_eq_true] at h
    exact hdigits h.1.1.2 h.1.2
  · obtain ⟨f, hf, -⟩ := Option.any_eq_true _ _ |>.mp h
    refine ⟨fun hnil => ?_, runs_parseFloatText hf⟩
    rw [parseFloatText, hnil] at hf
    cases hf

/-! ### Literals -/

theorem readNumber_eq (hne : cs ≠ []) (hruns : Runs (dropSign cs)) (hrest : Ends rest) :
    readNumber (cs ++ rest) = (cs, rest) := by
  cases cs with
  | nil => exact absurd rfl hne
  | cons c cs =>
    rw [List.cons_append, readNumber]
    rw [dropSign] at hruns
    split_ifs at hruns ⊢ with hc
    · rw [hruns rest hrest]
    · exact hruns rest hrest

theorem denotes_number {s : String} (h : dropSign s.toList ≠ [] ∧ Runs (dropSign s.toList)) :
    Denotes database (.number s) s := by
  intro rest hrest
  obtain ⟨hne, hruns⟩ := h
  have hcs : s.toList ≠ [] := fun hnil => hne (by rw [hnil]; rfl)
  have hread := readNumber_eq hcs hruns hrest
  have hquote : ∀ cs', printLiteral (.number s) ++ rest ≠ '\'' :: cs' := by
    intro cs' heq
    have heq : s.toList ++ rest = '\'' :: cs' := heq
    rw [heq] at hread
    have hnone : readNumber ('\'' :: cs') = ([], '\'' :: cs') := by
      rw [readNumber, if_neg (by decide), numberRun.eq_def]
      rfl
    rw [hnone] at hread
    exact hcs (congrArg Prod.fst hread).symm
  have htext : readLiteral database (s.toList ++ rest) =
      some (String.ofList (readNumber (s.toList ++ rest)).1, (readNumber (s.toList ++ rest)).2) := by
    rw [readLiteral.eq_def]
    split
    · next cs' heq => exact absurd heq (hquote cs')
    · rfl
  exact htext.trans (by rw [hread, String.ofList_toList])

theorem denotes_string {s : String} :
    Denotes database (.singleQuotedString s) s ↔ plain database s.toList = true := by
  have hread : ∀ rest, readLiteral database (printLiteral (.singleQuotedString s) ++ rest) = some (s, rest) ↔
      readQuoted database (printQuoted s.toList ++ '\'' :: rest) = some (s.toList, rest) := by
    intro rest
    rw [printLiteral, List.cons_append, List.cons_append, List.append_assoc, readLiteral]
    constructor
    · intro h
      obtain ⟨⟨out, rest'⟩, hread, heq⟩ := Option.map_eq_some_iff.mp h
      obtain ⟨hs, hrest⟩ := Prod.mk.inj heq
      have hout : out = s.toList := by rw [← hs, String.toList_ofList]
      have hrest : rest' = rest := hrest
      exact hread.trans (by rw [hout, hrest])
    · intro h
      have h : readQuoted database (printQuoted s.toList ++ (['\''] ++ rest)) = some (s.toList, rest) := h
      rw [h, Option.map_some, String.ofList_toList]
  constructor
  · intro h
    have hends : Ends [] := fun _ hc => by cases hc
    exact (readQuoted_printQuoted_iff (by simp)).mp ((hread []).mp (h [] hends))
  · intro h rest hrest
    refine (hread rest).mpr ((readQuoted_printQuoted_iff fun hquote => ?_).mpr h)
    exact (hrest _ hquote).1 rfl

/-! ### What survives -/

/-- A key denotes itself exactly if it is taken for a number or plain; so does a pushed value; and a literal of the
    user's query keeps its value, where the parser and the database agree on its escapes, exactly if that value is
    plain. -/
theorem literals_survive (parser database : Lexicon) :
    (∀ key isNumericType, Denotes database (keyToExpr key isNumericType) key ↔
      (isNumericType && (parsesI64 key.toList || parsesU64 key.toList || parsesFiniteF64 key.toList)) = true ∨
        plain database key.toList = true) ∧
    (∀ value, Denotes database (valueToExpr value) value ↔
      isNumericLiteral value = true ∨ plain database value.toList = true) ∧
    ∀ literal v, readQuoted parser (literal ++ ['\'']) = some (v, []) →
      (∀ d ∈ escaped (literal ++ ['\'']), parser.escape d = database.escape d) →
      (SameValue database literal v ↔ plain database v = true) := by
  refine ⟨fun key isNumericType => ?_, fun value => ?_, fun literal v hread hagree => ?_⟩
  · rw [keyToExpr]
    split_ifs with hnumber
    · exact iff_of_true (denotes_number (runs_parses (Bool.and_eq_true_iff.mp hnumber).2)) (.inl hnumber)
    · exact denotes_string.trans (or_iff_right hnumber).symm
  · rw [valueToExpr]
    split_ifs with hnumber
    · exact iff_of_true (denotes_number (runs_isNumericLiteral hnumber)) (.inl hnumber)
    · exact denotes_string.trans (or_iff_right hnumber).symm
  · rw [readQuoted_congr hagree] at hread
    constructor
    · rintro ⟨u, hu, hafter⟩
      cases hread.symm.trans hu
      have hnone : ([] : List Char).head? ≠ some '\'' := by simp
      exact (readQuoted_printQuoted_iff hnone).mp (hafter [] hnone)
    · exact fun hplain => ⟨v, hread, fun rest hrest => (readQuoted_printQuoted_iff hrest).mpr hplain⟩

def clickhouse : Lexicon where
  escape c :=
    match c with
    | '\\' => .char '\\'
    | '\'' => .char '\''
    | '"' => .char '"'
    | '/' => .char '/'
    | '=' => .char '='
    | 'a' => .char '\x07'
    | 'b' => .char '\x08'
    | 'e' => .char '\x1b'
    | 'f' => .char '\x0c'
    | 'n' => .char '\n'
    | 'r' => .char '\r'
    | 't' => .char '\t'
    | 'v' => .char '\x0b'
    | '0' => .char '\x00'
    | 'N' => .nothing
    | 'x' => .hex
    | c => if c = '\x60' ∨ c.toNat ≤ 31 then .char c else .kept
  backslash := rfl
  quote := rfl

/-- A key that ends with a backslash, a value with an escape in it, and a literal with an escaped backslash. -/
theorem not_literals_survive :
    ¬Denotes clickhouse (keyToExpr "\\" false) "\\" ∧ ¬Denotes clickhouse (valueToExpr "\\n") "\\n" ∧
      readQuoted clickhouse (['\\', '\\', 'n'] ++ ['\'']) = some (['\\', 'n'], []) ∧
      ¬SameValue clickhouse ['\\', '\\', 'n'] ['\\', 'n'] := by
  refine ⟨fun h => ?_, fun h => ?_, by decide, fun h => ?_⟩
  · have hread := h [] fun _ hc => by cases hc
    revert hread
    decide
  · have hread := h [] fun _ hc => by cases hc
    revert hread
    decide
  · obtain ⟨u, hu, hafter⟩ := h
    have hread := hafter [] (by simp)
    rw [show u = ['\\', 'n'] from by cases hu; rfl] at hread
    revert hread
    decide

end Reiver.Pond
