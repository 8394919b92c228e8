import Reiver.Pond.Query.Predicates

/-! # LIKE patterns that are sent

What the pattern of a `Contains` predicate matches once the database has read it, in both forms in which it is sent; and
what is made of the patterns of a query. -/

namespace Reiver.Pond

/-- The escapes of a database that leaves the backslash before a wildcard to the pattern, as ClickHouse does. -/
structure LikeLexicon extends Lexicon where
  percent : toLexicon.escape '%' = .kept
  underscore : toLexicon.escape '_' = .kept

/-- The literal ends where it was closed, and the pattern that it denotes matches what contains the text. -/
def LiteralContains (database : Lexicon) (literal : List Char) (s : String) : Prop :=
  ∃ pattern, (∀ rest, Ends rest → readLiteral database (literal ++ rest) = some (pattern, rest)) ∧
    ∀ x, likeMatches pattern x = true ↔ s.toList <:+: x.toList

/-- The pattern of a text means the text in both forms; a pattern is taken for a text only if it means the same; and the
    texts that a pattern matches begin with its literal prefix. -/
structure LikeFaithful (database : LikeLexicon) (dialect : SqlDialect) (column s p : String) : Prop where
  display : ∃ literal : String, predicateToDisplaySql dialect (.contains column s) =
      escapeColumnName column dialect ++ " LIKE " ++ literal ∧ LiteralContains database.toLexicon literal.toList s
  ast : ∃ pattern, predicateToExpr (.contains column s) = .like false (columnIdent column) (.value pattern) none ∧
    LiteralContains database.toLexicon (printLiteral pattern) s
  cut : ∀ substr, exprToPredicates (.like false (columnIdent column) (.value (.singleQuotedString p)) none) =
    [.contains column substr] → ∀ x, likeMatches p x = true ↔ substr.toList <:+: x.toList
  literalPrefix : ∀ x, likeMatches p x = true → (extractLikeLiteralPrefix p).toList <+: x.toList

/-- The text has no NUL, and each of its backslashes is followed by a character other than a wildcard or a backslash; so
    are those of a text that stands between the percent signs of the pattern. -/
structure LikeTame (s p : String) : Prop where
  nul : '\x00' ∉ s.toList
  backslashes : tame s.toList = true
  cut : ∀ t, p.toList = '%' :: (t ++ ['%']) → t ≠ [] → t.any isWildcard = false → tame t = true

variable {database : LikeLexicon} {dialect : SqlDialect} {lexicon : Lexicon} {column s p substr : String}
  {l cs x rest : List Char} {c : Char}

/-! ### What the database reads -/

theorem readQuoted_escaped {d e : Char} (h : lexicon.escape d = .char e) :
    readQuoted lexicon ('\\' :: d :: cs) = (readQuoted lexicon cs).map fun r => (e :: r.1, r.2) := by
  rw [readQuoted.eq_def]
  dsimp only
  rw [if_neg (by decide), if_pos rfl, h]

theorem LikeLexicon.kept (h : isWildcard c = true) : database.escape c = .kept := by
  have hc : c = '%' ∨ c = '_' := by simpa [isWildcard] using h
  rcases hc with rfl | rfl
  · exact database.percent
  · exact database.underscore

def withoutNul (l : List Char) : List Char := l.filter (· ≠ '\x00')

theorem withoutNul_nul : withoutNul ('\x00' :: l) = withoutNul l := List.filter_cons_of_neg (by decide)

theorem withoutNul_cons (h : c ≠ '\x00') : withoutNul (c :: l) = c :: withoutNul l :=
  List.filter_cons_of_pos (by simpa using h)

theorem escapeLike_cons : escapeLike (c :: l) = escapeChar c ++ escapeLike l := rfl

theorem readQuoted_escapeLike : readQuoted lexicon (l.flatMap escapeLikeChar ++ cs) =
    (readQuoted lexicon cs).map fun r => (escapeLike (withoutNul l) ++ r.1, r.2) := by
  induction l with
  | nil => simp [withoutNul, escapeLike]
  | cons c l ih =>
    rw [List.flatMap_cons, List.append_assoc, escapeLikeChar]
    split_ifs with hnul hquote hback hwild
    · subst hnul
      rw [withoutNul_nul]
      exact ih
    all_goals
      rw [withoutNul_cons hnul, escapeLike_cons, escapeChar]
      simp only [List.cons_append, List.nil_append]
    · subst hquote
      rw [readQuoted_double, ih, Option.map_map]
      rfl
    · subst hback
      rw [readQuoted_escaped lexicon.backslash, readQuoted_escaped lexicon.backslash, ih, Option.map_map,
        Option.map_map]
      rfl
    · rw [readQuoted_escaped lexicon.backslash, readQuoted_char hquote hback, ih, Option.map_map, Option.map_map,
        if_pos (by simp [hwild])]
      rfl
    · rw [readQuoted_char hquote hback, ih, Option.map_map, if_neg (by simp [hwild, hback])]
      rfl

theorem printQuoted_append {v w : List Char} : printQuoted (v ++ w) = printQuoted v ++ printQuoted w :=
  List.flatMap_append

theorem printQuoted_cons {v : List Char} : printQuoted (c :: v) = double c ++ printQuoted v := rfl

theorem readQuoted_escapeForAst : readQuoted database.toLexicon (printQuoted (l.flatMap escapeLikeCharForAst) ++ cs) =
    (readQuoted database.toLexicon cs).map fun r => (escapeWildcards (withoutNul l) ++ r.1, r.2) := by
  have hbackslash : double '\\' = ['\\'] := rfl
  induction l with
  | nil => simp [withoutNul, escapeWildcards, printQuoted]
  | cons c l ih =>
    rw [List.flatMap_cons, printQuoted_append, List.append_assoc, escapeLikeCharForAst]
    split_ifs with hnul hback hwild
    · subst hnul
      rw [withoutNul_nul]
      exact ih
    all_goals
      rw [withoutNul_cons hnul, escapeWildcards_cons, escapeWildcard]
      simp only [printQuoted_cons, hbackslash, List.cons_append, List.nil_append]
    · subst hback
      rw [readQuoted_escaped database.backslash]
      refine (congrArg _ ih).trans ?_
      rw [Option.map_map]
      rfl
    · have hquote : c ≠ '\'' := fun h => by simp [h, isWildcard] at hwild
      rw [double, if_neg hquote, List.cons_append, List.nil_append, List.cons_append,
        readQuoted_kept (LikeLexicon.kept hwild), if_pos hwild]
      refine (congrArg _ ih).trans ?_
      rw [Option.map_map]
      rfl
    · rw [if_neg hwild]
      by_cases hquote : c = '\''
      · subst hquote
        refine readQuoted_double.trans ((congrArg _ ih).trans ?_)
        rw [Option.map_map]
        rfl
      · rw [double, if_neg hquote]
        refine (readQuoted_char hquote hback).trans ((congrArg _ ih).trans ?_)
        rw [Option.map_map]
        rfl

theorem readQuoted_percent (hrest : Ends rest) : readQuoted lexicon ('%' :: '\'' :: rest) = some (['%'], rest) := by
  have hquote : rest.head? ≠ some '\'' := fun h => (hrest _ h).1 rfl
  rw [readQuoted_char (by decide) (by decide), readQuoted_end hquote]
  rfl

theorem readLiteral_display (hrest : Ends rest) :
    readLiteral lexicon ('\'' :: '%' :: (l.flatMap escapeLikeChar ++ ['%', '\'']) ++ rest) =
      some (String.ofList ('%' :: (escapeLike (withoutNul l) ++ ['%'])), rest) := by
  show (readQuoted lexicon ('%' :: (l.flatMap escapeLikeChar ++ ['%', '\''] ++ rest))).map _ = _
  rw [readQuoted_char (by decide) (by decide), List.append_assoc, readQuoted_escapeLike]
  simp only [List.cons_append, List.nil_append]
  rw [readQuoted_percent hrest]
  rfl

theorem readLiteral_ast (hrest : Ends rest) :
    readLiteral database.toLexicon
        (printLiteral (.singleQuotedString ("%" ++ escapeLikePatternForAst s ++ "%")) ++ rest) =
      some (String.ofList ('%' :: (escapeWildcards (withoutNul s.toList) ++ ['%'])), rest) := by
  have hprint : printLiteral (.singleQuotedString ("%" ++ escapeLikePatternForAst s ++ "%")) ++ rest =
      '\'' :: '%' :: (printQuoted (s.toList.flatMap escapeLikeCharForAst) ++ '%' :: '\'' :: rest) := by
    simp [printLiteral, escapeLikePatternForAst, printQuoted, double]
  rw [hprint]
  show (readQuoted database.toLexicon
    ('%' :: (printQuoted (s.toList.flatMap escapeLikeCharForAst) ++ '%' :: '\'' :: rest))).map _ = _
  rw [readQuoted_char (by decide) (by decide), readQuoted_escapeForAst, readQuoted_percent hrest]
  rfl

theorem literalContains_iff {literal v : List Char}
    (hread : ∀ rest, Ends rest → readLiteral lexicon (literal ++ rest) = some (String.ofList v, rest)) :
    LiteralContains lexicon literal s ↔ ∀ x, itemsMatch (likeItems v) x = true ↔ s.toList <:+: x := by
  constructor
  · rintro ⟨pattern, hpattern, hmatch⟩ x
    have hends : Ends [] := fun _ hc => absurd hc (by simp)
    obtain rfl : String.ofList v = pattern := by
      have heq := (hread [] hends).symm.trans (hpattern [] hends)
      exact (Prod.mk.inj (Option.some.inj heq)).1
    have h := hmatch (String.ofList x)
    rwa [likeMatches, String.toList_ofList, String.toList_ofList] at h
  · intro h
    refine ⟨String.ofList v, hread, fun x => ?_⟩
    rw [likeMatches, String.toList_ofList]
    exact h x.toList

/-! ### The two forms -/

theorem withoutNul_eq (h : '\x00' ∉ l) : withoutNul l = l :=
  List.filter_eq_self.mpr fun c hc => decide_eq_true fun heq => h (heq ▸ hc)

theorem length_withoutNul_lt (h : '\x00' ∈ l) : (withoutNul l).length < l.length :=
  List.length_filter_lt_length_iff_exists.mpr ⟨'\x00', h, by decide⟩

theorem display_literal : predicateToDisplaySql dialect (.contains column s) =
    escapeColumnName column dialect ++ " LIKE " ++
      String.ofList ('\'' :: '%' :: (s.toList.flatMap escapeLikeChar ++ ['%', '\''])) := by
  refine String.toList_injective ?_
  simp [predicateToDisplaySql, escapeLikePattern]

theorem displayContains_iff :
    LiteralContains lexicon ('\'' :: '%' :: (s.toList.flatMap escapeLikeChar ++ ['%', '\''])) s ↔
      '\x00' ∉ s.toList := by
  rw [literalContains_iff fun rest hrest => readLiteral_display hrest]
  constructor
  · intro h hnul
    have hinfix := (h (withoutNul s.toList)).mp ((contains_escapeLike _).mpr List.infix_rfl)
    exact hinfix.length_le.not_gt (length_withoutNul_lt hnul)
  · intro h x
    rw [withoutNul_eq h]
    exact contains_escapeLike x

theorem astContains_iff :
    LiteralContains database.toLexicon
        (printLiteral (.singleQuotedString ("%" ++ escapeLikePatternForAst s ++ "%"))) s ↔
      '\x00' ∉ s.toList ∧ tame s.toList = true := by
  rw [literalContains_iff fun rest hrest => readLiteral_ast hrest]
  constructor
  · intro h
    by_cases hnul : '\x00' ∈ s.toList
    · exact absurd h (not_contains_of_short (length_withoutNul_lt hnul))
    · rw [withoutNul_eq hnul] at h
      exact ⟨hnul, contains_iff_tame.mp h⟩
  · rintro ⟨hnul, htame⟩
    rw [withoutNul_eq hnul]
    exact contains_iff_tame.mpr htame

/-! ### The patterns of a query -/

theorem utf8ByteSize_between {t : List Char} (h : p.toList = '%' :: (t ++ ['%'])) :
    p.utf8ByteSize = 2 + (String.ofList t).utf8ByteSize := by
  have hp : p = "%" ++ String.ofList t ++ "%" := String.toList_injective (by simp [h])
  have hpercent : "%".utf8ByteSize = 1 := rfl
  rw [hp, String.utf8ByteSize_append, String.utf8ByteSize_append, hpercent]
  omega

theorem between_percents_iff : (p.toList.head? = some '%' ∧ p.toList.getLast? = some '%' ∧ 2 < p.utf8ByteSize) ↔
    ∃ t, p.toList = '%' :: (t ++ ['%']) ∧ t ≠ [] := by
  constructor
  · rintro ⟨hhead, hlast, hsize⟩
    obtain ⟨u, hu⟩ := List.head?_eq_some_iff.mp hhead
    rcases List.eq_nil_or_concat u with rfl | ⟨t, d, rfl⟩
    · have hp : p = "%" := String.toList_injective (by simp [hu])
      rw [hp] at hsize
      exact absurd hsize (by decide)
    · rw [List.concat_eq_append] at hu
      rw [hu, ← List.cons_append, List.getLast?_concat] at hlast
      obtain rfl : d = '%' := Option.some.inj hlast
      refine ⟨t, hu, ?_⟩
      rintro rfl
      rw [utf8ByteSize_between hu] at hsize
      exact absurd hsize (by decide)
  · rintro ⟨t, ht, hne⟩
    have hlast : p.toList.getLast? = some '%' := by rw [ht, ← List.cons_append, List.getLast?_concat]
    refine ⟨by simp [ht], hlast, ?_⟩
    have hsize : (String.ofList t).utf8ByteSize ≠ 0 := fun hzero =>
      hne (by simpa using congrArg String.toList (String.utf8ByteSize_eq_zero_iff.mp hzero))
    rw [utf8ByteSize_between ht]
    omega

theorem likePredicate_contains_iff : likePredicate column p = .contains column substr ↔
    p.toList = '%' :: (substr.toList ++ ['%']) ∧ substr.toList ≠ [] ∧ substr.toList.any isWildcard = false := by
  unfold likePredicate
  constructor
  · intro h
    split at h
    · next hbetween =>
      obtain ⟨t, ht, hne⟩ := between_percents_iff.mp hbetween
      have hmid : p.toList.tail.dropLast = t := by simp [ht]
      simp only [hmid] at h
      split at h
      · next hplain =>
        obtain rfl : String.ofList t = substr := (QueryPredicate.contains.inj h).2
        rw [String.toList_ofList]
        exact ⟨ht, hne, by simpa using hplain⟩
      · cases h
    · cases h
  · rintro ⟨ht, hne, hplain⟩
    have hmid : p.toList.tail.dropLast = substr.toList := by simp [ht]
    rw [if_pos (between_percents_iff.mpr ⟨_, ht, hne⟩)]
    simp only [hmid, hplain, Bool.not_false, if_true, String.ofList_toList]

theorem collect_like : exprToPredicates (.like false (columnIdent column) (.value (.singleQuotedString p)) none) =
    [likePredicate column p] := rfl

theorem escapeWildcards_plain (h : l.any isWildcard = false) : escapeWildcards l = l := by
  induction l with
  | nil => rfl
  | cons c l ih =>
    obtain ⟨hc, hl⟩ : isWildcard c = false ∧ l.any isWildcard = false := by simpa using h
    rw [escapeWildcards_cons, ih hl, escapeWildcard, if_neg (by simp [hc])]
    rfl

theorem cut_iff :
    (∀ substr, exprToPredicates (.like false (columnIdent column) (.value (.singleQuotedString p)) none) =
      [.contains column substr] → ∀ x, likeMatches p x = true ↔ substr.toList <:+: x.toList) ↔
    ∀ t, p.toList = '%' :: (t ++ ['%']) → t ≠ [] → t.any isWildcard = false → tame t = true := by
  have hmeans {t : List Char} (ht : p.toList = '%' :: (t ++ ['%'])) (hplain : t.any isWildcard = false) :
      (∀ x, likeMatches p x = true ↔ t <:+: x.toList) ↔ tame t = true := by
    rw [← contains_iff_tame, escapeWildcards_plain hplain]
    constructor
    · intro h x
      have hx := h (String.ofList x)
      rwa [likeMatches, ht, String.toList_ofList] at hx
    · intro h x
      rw [likeMatches, ht]
      exact h x.toList
  constructor
  · intro h t ht hne hplain
    refine (hmeans ht hplain).mp fun x => ?_
    have hcut : likePredicate column p = .contains column (String.ofList t) :=
      likePredicate_contains_iff.mpr (by rw [String.toList_ofList]; exact ⟨ht, hne, hplain⟩)
    have hx := h (String.ofList t) (by rw [collect_like, hcut]) x
    rwa [String.toList_ofList] at hx
  · intro h substr hcollect
    rw [collect_like, List.cons.injEq] at hcollect
    obtain ⟨ht, hne, hplain⟩ := likePredicate_contains_iff.mp hcollect.1
    exact (hmeans ht hplain).mpr (h _ ht hne hplain)

/-! ### Literal prefixes -/

theorem itemsMatch_char {items : List LikeItem} (h : itemsMatch (.char c :: items) x = true) :
    ∃ x', x = c :: x' ∧ itemsMatch items x' = true := by
  cases x with
  | nil => cases h
  | cons d x =>
    obtain ⟨hd, hx⟩ := Bool.and_eq_true_iff.mp h
    exact ⟨x, by rw [of_decide_eq_true hd], hx⟩

theorem literalPrefix_of_matches (h : itemsMatch (likeItems l) x = true) : literalPrefix l <+: x := by
  fun_induction literalPrefix l generalizing x with
  | case1 => exact List.nil_prefix
  | case2 =>
    obtain ⟨x', rfl, -⟩ := itemsMatch_char h
    exact List.cons_prefix_cons.mpr ⟨rfl, List.nil_prefix⟩
  | case3 escaped chars hescaped ih =>
    rw [likeItems_escaped (by simpa using hescaped)] at h
    obtain ⟨x', rfl, hx⟩ := itemsMatch_char h
    exact List.cons_prefix_cons.mpr ⟨rfl, ih hx⟩
  | case4 escaped chars hescaped ih =>
    obtain ⟨hwild, hback⟩ : isWildcard escaped = false ∧ escaped ≠ '\\' := by simpa using hescaped
    rw [likeItems_kept hwild hback] at h
    obtain ⟨x', rfl, hx⟩ := itemsMatch_char h
    exact List.cons_prefix_cons.mpr ⟨rfl, ih hx⟩
  | case5 ch chars _ _ hwild => exact List.nil_prefix
  | case6 ch chars hnil hcons hwild ih =>
    have hback : ch ≠ '\\' := fun hch => by
      cases chars with
      | nil => exact hnil hch rfl
      | cons escaped chars => exact hcons escaped chars hch rfl
    rw [likeItems_char (by simpa using hwild) hback] at h
    obtain ⟨x', rfl, hx⟩ := itemsMatch_char h
    exact List.cons_prefix_cons.mpr ⟨rfl, ih hx⟩

/-! ### Faithful patterns -/

theorem tame_of_faithful (h : LikeFaithful database dialect column s p) : LikeTame s p := by
  obtain ⟨pattern, hpattern, hcontains⟩ := h.ast
  obtain rfl : .singleQuotedString ("%" ++ escapeLikePatternForAst s ++ "%") = pattern := by
    simpa [predicateToExpr] using hpattern
  obtain ⟨hnul, htame⟩ := astContains_iff.mp hcontains
  exact ⟨hnul, htame, cut_iff.mp h.cut⟩

theorem faithful_of_tame (h : LikeTame s p) : LikeFaithful database dialect column s p := by
  refine ⟨⟨_, display_literal, ?_⟩, ⟨_, rfl, astContains_iff.mpr ⟨h.nul, h.backslashes⟩⟩, cut_iff.mpr h.cut,
    fun x hx => ?_⟩
  · rw [String.toList_ofList]
    exact displayContains_iff.mpr h.nul
  · rw [extractLikeLiteralPrefix, String.toList_ofList]
    exact literalPrefix_of_matches hx

/-- The patterns of a text and of a query mean what they should exactly if both are tame. -/
theorem likeFaithful_iff : LikeFaithful database dialect column s p ↔ LikeTame s p :=
  ⟨tame_of_faithful, faithful_of_tame⟩

/-! ### A backslash -/

/-- A lexicon with the escapes of the backslash, the quote and the wildcards only. -/
def bareLexicon : LikeLexicon where
  escape c := if c = '\\' ∨ c = '\'' then .char c else .kept
  backslash := rfl
  quote := rfl
  percent := rfl
  underscore := rfl

/-- The text of one backslash is sent as a pattern for the texts that end in a percent sign; and the pattern of a
    backslash between percent signs is taken for the backslash. -/
theorem not_likeFaithful : ¬LikeFaithful bareLexicon .clickHouse "x" "\\" "" ∧
    ¬LikeFaithful bareLexicon .clickHouse "x" "" "%\\%" := by
  constructor
  · intro h
    exact absurd (tame_of_faithful h).backslashes (by decide)
  · intro h
    exact absurd ((tame_of_faithful h).cut ['\\'] (by decide) (by decide) (by decide)) (by decide)

end Reiver.Pond
