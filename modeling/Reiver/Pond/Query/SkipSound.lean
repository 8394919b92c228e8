import Reiver.Pond.Query.SkipSatisfied

/-! # What skip predicates lose

A part that compares a text column, as it stands, with texts, as they stand, is read for what it says
(`onText_of_readsText`). What is read off the others is a guess: the whole condition is read right exactly if its
guesses are right where it is true (`extractPredicates_iff`). -/

namespace Reiver.Pond

namespace WhereExpr

/-- The side a part is read as the column of, and what the column is compared with. -/
def operands : WhereExpr → Option (WhereExpr × List WhereExpr)
  | .binaryOp left _ right =>
    if left.columnNameForSkip.isSome then some (left, [right]) else some (right, [left])
  | .like _ expr pattern => some (expr, [pattern])
  | .inList expr list _ => some (expr, list)
  | .between expr _ low high => some (expr, [low, high])
  | .function _ [column, tok] => some (column, [tok])
  | _ => none

/-- Is a part true of a text, if everything is compared as text, members that are no literals are passed over, and a
    backslash in a pattern stands for itself? -/
def TrueAsText (s : String) : WhereExpr → Prop
  | .binaryOp left op right =>
    if left.columnNameForSkip.isSome then ∀ v ∈ right.stringValue, op.compare s v = some true
    else ∀ v ∈ left.stringValue, op.compare v s = some true
  | .like _ _ pattern => ∀ p ∈ pattern.stringValue, ∀ atom ∈ likeAtoms p, atom.Meets s
  | .inList _ list _ => (∃ member ∈ list, member.stringValue.isSome) → ∃ member ∈ list, member.stringValue = some s
  | .between _ _ low high => ∀ a ∈ low.stringValue, ∀ b ∈ high.stringValue, a ≤ s ∧ s ≤ b
  | .function _ args => ∀ column tok, args = [column, tok] → ∀ t ∈ tok.stringValue, hasToken s t = true
  | _ => True

def escapes : WhereExpr → Bool
  | .like _ _ pattern => pattern.stringValue.any fun s => '\\' ∈ s.toList
  | _ => false

theorem columnNameForSkip_of_plain {e : WhereExpr} {column : String} (h : e.plainColumn = some column) :
    ∃ qualifier, e.columnNameForSkip = some (qualifier, column) := by
  cases e with
  | identifier ident =>
    cases h
    exact ⟨none, rfl⟩
  | compoundIdentifier idents =>
    have h : idents.getLast?.map (·.value) = some column := h
    rw [List.getLast?_eq_head?_reverse] at h
    show ∃ qualifier, (extractColumnNameForSkip (.compoundIdentifier idents)) = _
    rw [extractColumnNameForSkip]
    cases hrev : idents.reverse with
    | nil =>
      rw [hrev] at h
      cases h
    | cons last rest =>
      rw [hrev] at h
      cases h
      cases rest with
      | nil => exact ⟨none, rfl⟩
      | cons qualifier rest => exact ⟨some qualifier.value, rfl⟩
  | _ => cases h

theorem stringValue_of_literal {e : WhereExpr} {s : String} (h : e.textLiteral = some s) : e.stringValue = some s := by
  induction e using textLiteral.induct with
  | case1 t => exact h
  | case2 expr ih => exact ih h
  | case3 e hvalue hnested =>
    rw [textLiteral] at h
    · cases h
    · exact hvalue
    · exact hnested

end WhereExpr

section Reads
variable {V : Type} (E : SqlEngine V) (row : String → V)

/-- A text column is compared with texts, as they stand. -/
structure ReadsText (e : WhereExpr) : Prop where
  column : ∃ c literals column s, e.operands = some (c, literals) ∧ c.plainColumn = some column ∧
    row column = E.text s ∧ ∀ l ∈ literals, ∃ t, l.textLiteral = some t
  escapes : e.escapes = false

def keptTexts (column : String) : Option String := E.raw (row column)

variable {E row} {e c : WhereExpr} {reading : SkipReading}

theorem onText_of_plain {column s : String} {Q : String → Prop} (hcolumn : row column = E.text s) (h : Q s) :
    OnText (keptTexts E row) column Q := ⟨s, by rw [keptTexts, hcolumn, E.raw_text], h⟩

theorem accepts_binary {left right : WhereExpr} {op : BinaryOperator} {a b : String} (hand : op ≠ .and) (hor : op ≠ .or)
    (hleft : E.eval row left = E.text a) (hright : E.eval row right = E.text b)
    (hacc : E.Accepts row (.binaryOp left op right)) {t : Bool} (ht : op.compare a b = some t) : t = true := by
  have heval : E.eval row (.binaryOp left op right) = E.binary op (E.text a) (E.text b) := by
    rw [SqlEngine.eval, hleft, hright]
    · exact hand
    · exact hor
  rw [SqlEngine.Accepts, heval, E.binary_text op a b t ht] at hacc
  exact Option.some.inj hacc

theorem comparison_sound {left right : WhereExpr} {op : BinaryOperator} {onLeft onRight : String → SkipAtom}
    (hand : op ≠ .and) (hor : op ≠ .or) (hread : comparisonReading left right onLeft onRight = some reading)
    (hplain : ReadsText E row (.binaryOp left op right)) (hacc : E.Accepts row (.binaryOp left op right))
    (hmeans : ∀ a b, ∃ t, op.compare a b = some t ∧ (t = true → (onLeft b).Meets a ∧ (onRight a).Meets b)) :
    ∀ atom ∈ reading.2, OnText (keptTexts E row) reading.1.2 (SkipAtom.Meets · atom) := by
  obtain ⟨c, literals, column, s, hoperands, hc, hcolumn, hliterals⟩ := hplain.column
  rw [WhereExpr.operands] at hoperands
  rw [comparisonReading] at hread
  have hvalue : E.eval row c = E.text s := (SqlEngine.eval_plainColumn hc).trans hcolumn
  obtain ⟨qualifier, hname⟩ := WhereExpr.columnNameForSkip_of_plain hc
  cases hleft : left.columnNameForSkip with
  | some col =>
    rw [hleft] at hoperands hread
    cases hoperands
    obtain ⟨t, ht⟩ := hliterals right (List.mem_singleton_self _)
    rw [WhereExpr.stringValue_of_literal ht] at hread
    cases hread
    cases hname.symm.trans hleft
    intro atom hatom
    rw [List.mem_singleton.mp hatom]
    obtain ⟨b, hb, hmeets⟩ := hmeans s t
    have hb := accepts_binary hand hor hvalue (SqlEngine.eval_textLiteral ht) hacc hb
    exact onText_of_plain hcolumn (hmeets hb).1
  | none =>
    rw [hleft] at hoperands hread
    cases hoperands
    obtain ⟨t, ht⟩ := hliterals left (List.mem_singleton_self _)
    rw [WhereExpr.stringValue_of_literal ht, hname] at hread
    cases hread
    intro atom hatom
    rw [List.mem_singleton.mp hatom]
    obtain ⟨b, hb, hmeets⟩ := hmeans t s
    have hb := accepts_binary hand hor (SqlEngine.eval_textLiteral ht) hvalue hacc hb
    exact onText_of_plain hcolumn (hmeets hb).2

theorem plainLike_of_wildcard {s : String} {l : List Char} (hs : '\\' ∉ s.toList) (hl : ∀ c ∈ l, c ∈ s.toList)
    (hwild : hasWildcard (String.ofList l) = false) : PlainLike l := by
  simp only [hasWildcard, String.toList_ofList, Bool.or_eq_false_iff, decide_eq_false_iff_not] at hwild
  intro c hc
  refine ⟨?_, ?_, ?_⟩ <;> rintro rfl
  · exact hwild.1 hc
  · exact hwild.2 hc
  · exact hs (hl _ hc)

theorem likeAtoms_sound {pattern s : String} (hescape : '\\' ∉ pattern.toList) (hmatch : likeMatches pattern s = true) :
    ∀ atom ∈ likeAtoms pattern, atom.Meets s := by
  intro atom hatom
  rw [likeAtoms] at hatom
  dsimp only at hatom
  split_ifs at hatom with hboth hwild hends hwild
  · cases hatom
  · obtain rfl := List.mem_singleton.mp hatom
    obtain ⟨hstart, hend, -⟩ := hboth
    obtain ⟨rest, hrest⟩ : ∃ rest, pattern.toList = '%' :: rest := by
      have hhead := of_decide_eq_true hstart
      cases hlist : pattern.toList with
      | nil =>
        rw [hlist] at hhead
        cases hhead
      | cons c rest =>
        rw [hlist] at hhead
        cases hhead
        exact ⟨rest, rfl⟩
    rw [hrest, List.tail_cons] at hwild ⊢
    have hplain :=
      plainLike_of_wildcard hescape (fun c hc => hrest ▸ List.mem_cons_of_mem _ (List.dropLast_subset _ hc))
      (Bool.eq_false_of_not_eq_true hwild)
    obtain ⟨tail, htail⟩ := List.dropLast_prefix rest
    rw [likeMatches, hrest, ← htail] at hmatch
    show (String.ofList rest.dropLast).toList <:+: s.toList
    rw [String.toList_ofList]
    exact infix_of_matches hplain hmatch
  · cases hatom
  · obtain rfl := List.mem_singleton.mp hatom
    have hpfx : (pattern.toList.reverse.dropWhile (· = '%')).reverse <+: pattern.toList := by
      have hsuffix := List.dropWhile_suffix (l := pattern.toList.reverse) fun c : Char => decide (c = '%')
      have hpfx := List.reverse_prefix.mpr hsuffix
      rwa [List.reverse_reverse] at hpfx
    obtain ⟨tail, htail⟩ := hpfx
    have hplain := plainLike_of_wildcard hescape (fun c hc => htail ▸ List.mem_append_left _ hc)
      (Bool.eq_false_of_not_eq_true hwild)
    rw [likeMatches, ← htail] at hmatch
    show (trimPercents pattern).toList <+: s.toList
    rw [trimPercents, String.toList_ofList]
    exact prefix_of_matches hplain hmatch
  · cases hatom

/-- A reading of a text column compared with texts is what the part says. -/
theorem onText_of_readsText (hread : skipReading E.unicode E.parser e = some reading) (hplain : ReadsText E row e)
    (hacc : E.Accepts row e) : ∀ atom ∈ reading.2, OnText (keptTexts E row) reading.1.2 (SkipAtom.Meets · atom) := by
  cases e with
  | binaryOp left op right =>
    cases op with
    | eq =>
      refine comparison_sound (by decide) (by decide) hread hplain hacc fun a b => ⟨_, rfl, fun h => ?_⟩
      have h : a = b := of_decide_eq_true h
      exact ⟨h, h.symm⟩
    | gt =>
      refine comparison_sound (by decide) (by decide) hread hplain hacc fun a b => ⟨_, rfl, fun h => ?_⟩
      have h : b < a := of_decide_eq_true h
      exact ⟨h, h⟩
    | gtEq =>
      refine comparison_sound (by decide) (by decide) hread hplain hacc fun a b => ⟨_, rfl, fun h => ?_⟩
      have h : b ≤ a := of_decide_eq_true h
      exact ⟨h, h⟩
    | lt =>
      refine comparison_sound (by decide) (by decide) hread hplain hacc fun a b => ⟨_, rfl, fun h => ?_⟩
      have h : a < b := of_decide_eq_true h
      exact ⟨h, h⟩
    | ltEq =>
      refine comparison_sound (by decide) (by decide) hread hplain hacc fun a b => ⟨_, rfl, fun h => ?_⟩
      have h : a ≤ b := of_decide_eq_true h
      exact ⟨h, h⟩
    | and => cases hread
    | or => cases hread
    | other text => cases hread
  | like negated expr pattern =>
    obtain ⟨c, literals, column, s, hoperands, hc, hcolumn, hliterals⟩ := hplain.column
    cases hoperands
    obtain ⟨qualifier, hname⟩ := WhereExpr.columnNameForSkip_of_plain hc
    obtain ⟨t, ht⟩ := hliterals pattern (List.mem_singleton_self _)
    have hvalue := WhereExpr.stringValue_of_literal ht
    have hescape := hplain.escapes
    rw [WhereExpr.escapes, hvalue] at hescape
    rw [skipReading] at hread
    cases negated with
    | true => cases hread
    | false =>
      rw [if_neg (by decide), hname, hvalue] at hread
      cases hread
      rw [SqlEngine.Accepts, SqlEngine.eval, SqlEngine.eval_plainColumn hc, hcolumn, SqlEngine.eval_textLiteral ht,
        E.truth_ofTruth, E.like_text] at hacc
      intro atom hatom
      exact onText_of_plain hcolumn (likeAtoms_sound (of_decide_eq_false hescape) (Option.some.inj hacc) atom hatom)
  | inList expr list negated =>
    obtain ⟨c, literals, column, s, hoperands, hc, hcolumn, hliterals⟩ := hplain.column
    cases hoperands
    obtain ⟨qualifier, hname⟩ := WhereExpr.columnNameForSkip_of_plain hc
    rw [skipReading] at hread
    cases negated with
    | true => cases hread
    | false =>
      rw [if_neg (by decide), hname] at hread
      cases hread
      rw [SqlEngine.Accepts, SqlEngine.eval, SqlEngine.eval_plainColumn hc, hcolumn, E.truth_ofTruth,
        SqlEngine.evalList_eq_map] at hacc
      obtain ⟨v, hv, heq⟩ := List.mem_map.mp (Truth.any_eq_true.mp hacc)
      obtain ⟨member, hmember, rfl⟩ := List.mem_map.mp hv
      obtain ⟨t, ht⟩ := hliterals member hmember
      rw [SqlEngine.eval_textLiteral ht, E.binary_text .eq s t _ rfl] at heq
      have hmem : s ∈ list.filterMap WhereExpr.stringValue :=
        List.mem_filterMap.mpr
          ⟨member, hmember, of_decide_eq_true (Option.some.inj heq) ▸ WhereExpr.stringValue_of_literal ht⟩
      intro atom hatom
      dsimp only [inAtoms] at hatom
      rw [if_neg (List.ne_nil_of_mem hmem)] at hatom
      rw [List.mem_singleton.mp hatom]
      exact onText_of_plain hcolumn hmem
  | between expr negated low high =>
    obtain ⟨c, literals, column, s, hoperands, hc, hcolumn, hliterals⟩ := hplain.column
    cases hoperands
    obtain ⟨qualifier, hname⟩ := WhereExpr.columnNameForSkip_of_plain hc
    obtain ⟨a, ha⟩ := hliterals low (by simp)
    obtain ⟨b, hb⟩ := hliterals high (by simp)
    rw [skipReading] at hread
    cases negated with
    | true => cases hread
    | false =>
      rw [if_neg (by decide), hname] at hread
      cases hread
      rw [SqlEngine.Accepts, SqlEngine.eval, SqlEngine.eval_plainColumn hc, hcolumn, SqlEngine.eval_textLiteral ha,
        SqlEngine.eval_textLiteral hb, E.truth_ofTruth, E.binary_text .gtEq s a _ rfl,
          E.binary_text .ltEq s b _ rfl] at hacc
      obtain ⟨hlow, hhigh⟩ := Truth.and_eq_true.mp hacc
      have hlow : a ≤ s := of_decide_eq_true (Option.some.inj hlow)
      have hhigh : s ≤ b := of_decide_eq_true (Option.some.inj hhigh)
      intro atom hatom
      dsimp only [betweenAtoms] at hatom
      rw [WhereExpr.stringValue_of_literal ha, WhereExpr.stringValue_of_literal hb] at hatom
      rcases List.mem_cons.mp hatom with rfl | hatom
      · exact onText_of_plain hcolumn hlow
      · rw [List.mem_singleton.mp hatom]
        exact onText_of_plain hcolumn hhigh
  | function name args =>
    obtain ⟨c, literals, column, s, hoperands, hc, hcolumn, hliterals⟩ := hplain.column
    obtain ⟨tok, rfl, rfl⟩ : ∃ tok, args = [c, tok] ∧ literals = [tok] := by
      rcases args with _ | ⟨a, _ | ⟨b, _ | ⟨d, rest⟩⟩⟩ <;> cases hoperands
      exact ⟨b, rfl, rfl⟩
    obtain ⟨qualifier, hname⟩ := WhereExpr.columnNameForSkip_of_plain hc
    obtain ⟨t, ht⟩ := hliterals tok (List.mem_singleton_self _)
    have hvalue := WhereExpr.stringValue_of_literal ht
    have hcall : extractHasToken E.unicode E.parser (WhereExpr.function name [c, tok]).toAst =
        if E.unicode.toLowercase (fullName E.parser name) = "hastoken" then some ((qualifier, column), t)
          else none := by
      show (if _ then (c.columnNameForSkip.bind fun col => tok.stringValue.map fun tok => (col, tok)) else none) = _
      rw [hname, hvalue]
      rfl
    rw [skipReading, hcall] at hread
    split_ifs at hread with hlower
    · cases hread
      rw [SqlEngine.Accepts, SqlEngine.eval, SqlEngine.evalList_eq_map, List.map_cons, List.map_cons, List.map_nil,
        SqlEngine.eval_plainColumn hc, hcolumn, SqlEngine.eval_textLiteral ht, E.call_hasToken name s t hlower] at hacc
      intro atom hatom
      rw [List.mem_singleton.mp hatom]
      exact onText_of_plain hcolumn (Option.some.inj hacc)
    · cases hread
  | _ => cases hread

end Reads

/-! ### The whole condition -/

section Guesses
variable {U : Unicode} {P : SqlParser} {e : WhereExpr} {reading : SkipReading} {s : String}

theorem comparisonReading_iff {left right : WhereExpr} {op : BinaryOperator} {onLeft onRight : String → SkipAtom}
    (hread : comparisonReading left right onLeft onRight = some reading)
    (hmeans : ∀ a b, ((onLeft b).Meets a ↔ op.compare a b = some true) ∧
      ((onRight a).Meets b ↔ op.compare a b = some true)) :
    (∀ atom ∈ reading.2, atom.Meets s) ↔ (WhereExpr.binaryOp left op right).TrueAsText s := by
  rw [WhereExpr.TrueAsText]
  rw [comparisonReading] at hread
  cases hleft : left.columnNameForSkip with
  | some col =>
    rw [hleft] at hread
    cases hread
    rw [if_pos Option.isSome_some]
    cases right.stringValue with
    | none => simp
    | some v => simp [(hmeans s v).1]
  | none =>
    rw [hleft] at hread
    obtain ⟨col, -, rfl⟩ := Option.map_eq_some_iff.mp hread
    rw [Option.isSome_none, if_neg Bool.false_ne_true]
    cases left.stringValue with
    | none => simp
    | some v => simp [(hmeans v s).2]

theorem hasToken_args {name : ObjectName} {args : List WhereExpr} {read : (Option String × String) × String}
    (h : extractHasToken U P (WhereExpr.function name args).toAst = some read) :
    ∃ column tok, args = [column, tok] ∧ tok.stringValue = some read.2 := by
  rcases args with _ | ⟨column, _ | ⟨tok, _ | ⟨d, rest⟩⟩⟩
  · change (if _ then none else none) = some read at h
    split_ifs at h
  · change (if _ then none else none) = some read at h
    split_ifs at h
  · refine ⟨column, tok, rfl, ?_⟩
    change (if _ then (column.columnNameForSkip.bind fun col => tok.stringValue.map fun t => (col, t)) else none) =
      some read at h
    split_ifs at h
    obtain ⟨col, -, h⟩ := Option.bind_eq_some_iff.mp h
    obtain ⟨t, ht, rfl⟩ := Option.map_eq_some_iff.mp h
    exact ht
  · change (if _ then none else none) = some read at h
    split_ifs at h

/-- The atoms read off a part hold of a text exactly if the part is true of it as text. -/
theorem skipReading_iff (hread : skipReading U P e = some reading) :
    (∀ atom ∈ reading.2, atom.Meets s) ↔ e.TrueAsText s := by
  cases e with
  | binaryOp left op right =>
    cases op with
    | eq => exact comparisonReading_iff hread fun a b => by simp [SkipAtom.Meets, BinaryOperator.compare, eq_comm]
    | gt => exact comparisonReading_iff hread fun a b => by simp [SkipAtom.Meets, BinaryOperator.compare]
    | gtEq => exact comparisonReading_iff hread fun a b => by simp [SkipAtom.Meets, BinaryOperator.compare]
    | lt => exact comparisonReading_iff hread fun a b => by simp [SkipAtom.Meets, BinaryOperator.compare]
    | ltEq => exact comparisonReading_iff hread fun a b => by simp [SkipAtom.Meets, BinaryOperator.compare]
    | and => cases hread
    | or => cases hread
    | other text => cases hread
  | like negated expr pattern =>
    rw [skipReading] at hread
    split_ifs at hread
    obtain ⟨col, -, rfl⟩ := Option.map_eq_some_iff.mp hread
    rw [WhereExpr.TrueAsText]
    cases pattern.stringValue with
    | none => simp
    | some p => simp
  | inList expr list negated =>
    rw [skipReading] at hread
    split_ifs at hread
    obtain ⟨col, -, rfl⟩ := Option.map_eq_some_iff.mp hread
    rw [WhereExpr.TrueAsText]
    dsimp only [inAtoms]
    split_ifs with hnil
    · refine iff_of_true (by simp) ?_
      rintro ⟨member, hmember, hsome⟩
      obtain ⟨v, hv⟩ := Option.isSome_iff_exists.mp hsome
      exact absurd (List.mem_filterMap.mpr ⟨member, hmember, hv⟩) (hnil ▸ List.not_mem_nil)
    · obtain ⟨v, hv⟩ := List.exists_mem_of_ne_nil _ hnil
      obtain ⟨member, hmember, hv⟩ := List.mem_filterMap.mp hv
      rw [List.forall_mem_singleton, forall_prop_of_true ⟨member, hmember, Option.isSome_of_eq_some hv⟩]
      exact List.mem_filterMap
  | between expr negated low high =>
    rw [skipReading] at hread
    split_ifs at hread
    obtain ⟨col, -, rfl⟩ := Option.map_eq_some_iff.mp hread
    rw [WhereExpr.TrueAsText]
    dsimp only [betweenAtoms]
    cases low.stringValue with
    | none => simp
    | some a =>
      cases high.stringValue with
      | none => simp
      | some b => simp [SkipAtom.Meets]
  | function name args =>
    rw [skipReading] at hread
    obtain ⟨read, hcall, rfl⟩ := Option.map_eq_some_iff.mp hread
    obtain ⟨column, tok, rfl, htok⟩ := hasToken_args hcall
    rw [List.forall_mem_singleton, WhereExpr.TrueAsText]
    constructor
    · intro hmeets column' tok' hargs t ht
      cases hargs
      cases htok.symm.trans ht
      exact hmeets
    · exact fun hall => hall column tok rfl read.2 htok
  | _ => cases hread

theorem onText_forall {texts : String → Option String} {column : String} {atoms : List SkipAtom} (hne : atoms ≠ []) :
    (∀ atom ∈ atoms, OnText texts column (SkipAtom.Meets · atom)) ↔
      OnText texts column fun s => ∀ atom ∈ atoms, atom.Meets s := by
  constructor
  · intro hall
    obtain ⟨atom, hatom⟩ := List.exists_mem_of_ne_nil _ hne
    obtain ⟨s, hs, -⟩ := hall atom hatom
    refine ⟨s, hs, fun atom hatom => ?_⟩
    obtain ⟨s', hs', hmeets⟩ := hall atom hatom
    exact Option.some.inj (hs'.symm.trans hs) ▸ hmeets
  · rintro ⟨s, hs, hall⟩ atom hatom
    exact ⟨s, hs, hall atom hatom⟩

end Guesses

/-- Where something is read off a part that does not compare a text column with texts, the column has a text, and the
    part is true of it as text. -/
def GuessesHold {V : Type} (E : SqlEngine V) (row : String → V) (e : WhereExpr) : Prop :=
  ∀ part ∈ takenParts E.unicode E.parser {} e.conjuncts, ¬ReadsText E row part.1 → part.2.2 ≠ [] →
    OnText (keptTexts E row) part.2.1.2 (WhereExpr.TrueAsText · part.1)

/-- A condition that is true of a row has predicates that hold of it exactly if its guesses do. -/
theorem extractPredicates_iff {V : Type} (E : SqlEngine V) (row : String → V) (e : WhereExpr) :
    (E.Accepts row e → (extractPredicatesFromExpr E.unicode E.parser e {}).predicates.Satisfied (keptTexts E row)) ↔
      (E.Accepts row e → GuessesHold E row e) := by
  refine imp_congr_right fun hacc => ?_
  rw [extractPredicatesFromExpr_eq, satisfied_readParts, and_iff_right SkipPredicates.satisfied_empty]
  constructor
  · intro hall part hpart _ hne
    exact (onText_congr fun s => skipReading_iff (takenParts_subset _ _ hpart).2).mp
      ((onText_forall hne).mp (hall part hpart))
  · intro hguess part hpart
    obtain ⟨hmem, hread⟩ := takenParts_subset _ _ hpart
    by_cases hplain : ReadsText E row part.1
    · exact onText_of_readsText hread hplain ((SqlEngine.accepts_iff_conjuncts e).mp hacc part.1 hmem)
    · by_cases hne : part.2.2 = []
      · rw [hne]
        exact fun atom hatom => absurd hatom List.not_mem_nil
      · exact (onText_forall hne).mpr ((onText_congr fun s => skipReading_iff hread).mpr (hguess part hpart hplain hne))

/-! ### Guesses that fail -/

inductive SqlCell where
  | text (s : String)
  | truth (t : Truth)

/-- Texts only; a date is cut off the text of a time. -/
def cellEngine : SqlEngine SqlCell where
  unicode := asciiUnicode
  parser := plainParser
  text := .text
  truth v := match v with | .truth t => t | .text _ => none
  ofTruth := .truth
  literal v := match v with
    | .number n => .text n
    | .singleQuotedString s => .text s
    | .doubleQuotedString s => .text s
    | .boolean b => .truth (some b)
    | .other t => .text t
  binary op v w := match v, w with | .text a, .text b => .truth (op.compare a b) | _, _ => .truth none
  unary _ v := v
  cast dataType v := match v with
    | .text s => .text (if dataType = "Date" then String.ofList (s.toList.take 10) else s)
    | .truth t => .truth t
  like v w := match v, w with | .text s, .text pattern => .truth (some (likeMatches pattern s)) | _, _ => .truth none
  call name args :=
    if asciiUnicode.toLowercase (fullName plainParser name) = "hastoken" then
      match args with | [.text s, .text q] => .truth (some (hasToken s q)) | _ => .truth none
    else .truth none
  interval v _ := v
  other _ _ := .truth none
  raw v := match v with | .text s => some s | .truth _ => none
  truth_ofTruth _ := rfl
  literal_text _ := rfl
  binary_text _ _ _ _ h := h
  like_text _ _ := rfl
  call_hasToken name s q h := by dsimp only; rw [if_pos h]
  raw_text _ := rfl

def columnExpr (name : String) : WhereExpr := .identifier { value := name }

def textExpr (s : String) : WhereExpr := .value (.singleQuotedString s)

/-- `x IN ('a', y)`. -/
def inWithColumn : WhereExpr := .inList (columnExpr "x") [textExpr "a", columnExpr "y"] false

/-- `x LIKE '100\%'`. -/
def likeWithEscape : WhereExpr := .like false (columnExpr "x") (textExpr "100\\%")

/-- `CAST(x AS Date) = '2025-01-01'`. -/
def castToDate : WhereExpr := .binaryOp (.cast (columnExpr "x") "Date") .eq (textExpr "2025-01-01")

/-- A list that drops a member, a pattern with an escape and a cast column each lose a row they are true of. -/
theorem skipReadings_lose_rows :
    (cellEngine.Accepts (fun _ => .text "b") inWithColumn ∧
      ¬(extractPredicatesFromExpr asciiUnicode plainParser inWithColumn {}).predicates.Satisfied
        (keptTexts cellEngine fun _ => .text "b")) ∧
    (cellEngine.Accepts (fun _ => .text "100%") likeWithEscape ∧
      ¬(extractPredicatesFromExpr asciiUnicode plainParser likeWithEscape {}).predicates.Satisfied
        (keptTexts cellEngine fun _ => .text "100%")) ∧
    (cellEngine.Accepts (fun _ => .text "2025-01-01 10:00:00") castToDate ∧
      ¬(extractPredicatesFromExpr asciiUnicode plainParser castToDate {}).predicates.Satisfied
        (keptTexts cellEngine fun _ => .text "2025-01-01 10:00:00")) := by
  refine ⟨⟨rfl, fun hsat => ?_⟩, ⟨rfl, fun hsat => ?_⟩, ⟨rfl, fun hsat => ?_⟩⟩
  · obtain ⟨s, hs, hmem⟩ := hsat.inLists "x" ["a"] rfl
    cases hs
    exact absurd hmem (by decide)
  · obtain ⟨s, hs, hpfx⟩ := hsat.prefixes "x" "100\\" (by decide)
    cases hs
    exact absurd hpfx (by decide)
  · obtain ⟨s, hs, heq⟩ := hsat.equality "x" "2025-01-01" rfl
    cases hs
    exact absurd heq (by decide)

end Reiver.Pond
