import Mathlib.Data.List.DropRight
import Mathlib.Data.List.Induction
import Mathlib.Data.Nat.Init
import Reiver.Pond.Query.NormalizeQuery

/-! # What normalization keeps

A normal form is its own normal form (`normalizeQuery_idempotent`). Where every character is plain, the database reads
the normal form as it reads the text, up to the case of the code (`lexItems_normalizeQuery`). -/

namespace Reiver.Pond

variable {T : CharTables} {S : Splitter} {nested : Bool} {s s' : NormalizeState} {c d : Char} {q p rest : List Char}

/-! ### Characters -/

theorem ascii_induct {P : Char → Prop} (h : ∀ n < 128, P (Char.ofNat n)) (hc : c.toNat < 128) : P c := by
  have hc' := h c.toNat hc
  rwa [Char.ofNat_toNat] at hc'

theorem toLower_cases (hc : c.toNat < 128) : c.toLower = c ∨ (c.isAlpha = true ∧ c.toLower.isAlpha = true) :=
  ascii_induct (P := fun c => c.toLower = c ∨ (c.isAlpha = true ∧ c.toLower.isAlpha = true)) (by decide) hc

theorem toLower_toLower (hc : c.toNat < 128) : c.toLower.toLower = c.toLower :=
  ascii_induct (P := fun c => c.toLower.toLower = c.toLower) (by decide) hc

theorem toLower_ascii (hc : c.toNat < 128) : c.toLower.toNat < 128 :=
  ascii_induct (P := fun c => c.toLower.toNat < 128) (by decide) hc

/-- The characters that the loop or the database takes for something else than a part of a word. -/
def isSpecial (c : Char) : Bool := isMark c || c = '-' || c = '/' || c = '*' || c = '\n' || c = '\\'

theorem isSpecial_iff : isSpecial c = true ↔
    c = '\'' ∨ c = '"' ∨ c = '\x60' ∨ c = '-' ∨ c = '/' ∨ c = '*' ∨ c = '\n' ∨ c = '\\' := by
  simp [isSpecial, isMark, or_assoc]

theorem ascii_of_alpha (h : c.isAlpha = true) : c.toNat < 128 := by
  rcases Bool.or_eq_true_iff.mp h with hupper | hlower
  · exact Nat.lt_of_le_of_lt (show c.toNat ≤ 90 from (of_decide_eq_true hupper).2) (by decide)
  · exact Nat.lt_of_le_of_lt (show c.toNat ≤ 122 from of_decide_eq_true (Bool.and_eq_true_iff.mp hlower).2) (by decide)

theorem not_special_of_alpha (h : c.isAlpha = true) : isSpecial c = false := by
  refine eq_false_of_ne_true fun hspecial => ?_
  rcases isSpecial_iff.mp hspecial with rfl | rfl | rfl | rfl | rfl | rfl | rfl | rfl <;> exact absurd h (by decide)

theorem not_special_of_not_ascii (h : 128 ≤ c.toNat) : isSpecial c = false := by
  refine eq_false_of_ne_true fun hspecial => ?_
  rcases isSpecial_iff.mp hspecial with rfl | rfl | rfl | rfl | rfl | rfl | rfl | rfl <;> exact absurd h (by decide)

theorem isWhitespace_of_alpha (h : c.isAlpha = true) : T.isWhitespace c = false := by
  have hascii := ascii_of_alpha h
  rw [T.isWhitespace_ascii c hascii]
  exact ascii_induct (P := fun c => c.isAlpha = true → (c = ' ' || (9 ≤ c.toNat && c.toNat ≤ 13)) = false) (by decide)
    hascii h

theorem isWhitespace_space : T.isWhitespace ' ' = true := T.isWhitespace_ascii ' ' (by decide)

theorem not_special_of_whitespace (h : T.isWhitespace c = true) (hne : c ≠ '\n') : isSpecial c = false := by
  refine eq_false_of_ne_true fun hspecial => ?_
  rcases isSpecial_iff.mp hspecial with rfl | rfl | rfl | rfl | rfl | rfl | rfl | rfl
  all_goals first
    | exact hne rfl
    | (rw [T.isWhitespace_ascii _ (by decide)] at h
       exact absurd h (by decide))

theorem of_mem_toLowercase (hspace : T.isWhitespace c = false) (hd : d ∈ T.toLowercase c) :
    T.isWhitespace d = false ∧ (d = c ∨ isSpecial d = false) := by
  rcases Nat.lt_or_ge c.toNat 128 with hc | hc
  · obtain rfl : d = c.toLower := by simpa [T.toLowercase_ascii c hc] using hd
    rcases toLower_cases hc with h | ⟨-, halpha⟩
    · rw [h]
      exact ⟨hspace, .inl rfl⟩
    · exact ⟨isWhitespace_of_alpha halpha, .inr (not_special_of_alpha halpha)⟩
  · obtain ⟨hd, hcases⟩ := T.toLowercase_other c hc hspace d hd
    exact ⟨hd, .inr (hcases.elim not_special_of_alpha not_special_of_not_ascii)⟩

/-! ### One character of the loop -/

def NormalizeState.inQuote (s : NormalizeState) : Bool := s.inSingleQuote || s.inDoubleQuote

def NormalizeState.adds (T : CharTables) (s : NormalizeState) (c : Char) : List Char :=
  if s.inQuote || c = '\'' || c = '"' then [c]
  else if T.isWhitespace c then if !s.lastWasSpace && !s.result.isEmpty then [' '] else []
  else T.toLowercase c

theorem result_push : (s.push T c).result = s.result ++ s.adds T c := by
  unfold NormalizeState.push NormalizeState.adds NormalizeState.inQuote
  split_ifs <;> simp_all

theorem push_space (hquote : s.inQuote = false) (hspace : T.isWhitespace c = true) (hc : c ≠ '\'' ∧ c ≠ '"') :
    s.push T c =
      if !s.lastWasSpace && !s.result.isEmpty then { s with result := s.result ++ [' '], lastWasSpace := true }
        else s := by
  obtain ⟨hsingle, hdouble⟩ : s.inSingleQuote = false ∧ s.inDoubleQuote = false := by
    simpa [NormalizeState.inQuote] using hquote
  simp [NormalizeState.push, hsingle, hdouble, hspace, hc.1, hc.2]

theorem push_word (hquote : s.inQuote = false) (hspace : T.isWhitespace c = false) (hc : c ≠ '\'' ∧ c ≠ '"') :
    s.push T c = { s with lastWasSpace := false, result := s.result ++ T.toLowercase c } := by
  obtain ⟨hsingle, hdouble⟩ : s.inSingleQuote = false ∧ s.inDoubleQuote = false := by
    simpa [NormalizeState.inQuote] using hquote
  simp [NormalizeState.push, hsingle, hdouble, hspace, hc.1, hc.2]

/-! ### A normal form is its own normal form -/

theorem not_quote_of_mem_toLowercase (hspace : T.isWhitespace c = false) (hc : c ≠ '\'' ∧ c ≠ '"')
    (hd : d ∈ T.toLowercase c) : d ≠ '\'' ∧ d ≠ '"' := by
  rcases (of_mem_toLowercase hspace hd).2 with rfl | hspecial
  · exact hc
  · constructor
    · rintro rfl
      exact absurd hspecial (by decide)
    · rintro rfl
      exact absurd hspecial (by decide)

theorem foldl_push_word {ds : List Char} (hquote : s.inQuote = false)
    (h : ∀ d ∈ ds, T.isWhitespace d = false ∧ (d ≠ '\'' ∧ d ≠ '"') ∧ T.toLowercase d = [d]) (hne : ds ≠ []) :
    ds.foldl (·.push T) s = { s with lastWasSpace := false, result := s.result ++ ds } := by
  induction ds generalizing s with
  | nil => exact absurd rfl hne
  | cons d ds ih =>
    obtain ⟨hspace, hmark, hlower⟩ := h d List.mem_cons_self
    rw [List.foldl_cons, push_word hquote hspace hmark, hlower]
    cases ds with
    | nil => rfl
    | cons e ds =>
      refine (ih (s := { s with lastWasSpace := false, result := s.result ++ [d] }) hquote
        (fun e he => h e (List.mem_cons_of_mem _ he)) (List.cons_ne_nil _ _)).trans ?_
      simp

theorem foldl_push_adds : (s.adds T c).foldl (·.push T) s = s.push T c := by
  unfold NormalizeState.adds
  split_ifs with hkept hspace hfirst
  · rfl
  · obtain ⟨hquote, hc⟩ : s.inQuote = false ∧ c ≠ '\'' ∧ c ≠ '"' := by simpa [and_assoc] using hkept
    rw [push_space hquote hspace hc, List.foldl_cons, List.foldl_nil,
      push_space hquote isWhitespace_space (by decide)]
  · obtain ⟨hquote, hc⟩ : s.inQuote = false ∧ c ≠ '\'' ∧ c ≠ '"' := by simpa [and_assoc] using hkept
    rw [push_space hquote hspace hc, if_neg hfirst]
    rfl
  · obtain ⟨hquote, hc⟩ : s.inQuote = false ∧ c ≠ '\'' ∧ c ≠ '"' := by simpa [and_assoc] using hkept
    have hspace : T.isWhitespace c = false := eq_false_of_ne_true hspace
    rw [push_word hquote hspace hc]
    exact foldl_push_word hquote (fun d hd => ⟨(of_mem_toLowercase hspace hd).1,
      not_quote_of_mem_toLowercase hspace hc hd, T.toLowercase_fixed c d hd⟩) (T.toLowercase_ne_nil c)

theorem result_foldl_push_prefix {e : List Char} (he : e <+: s.adds T c) :
    (e.foldl (·.push T) s).result = s.result ++ e := by
  by_cases hall : e = s.adds T c
  · rw [hall, foldl_push_adds, result_push]
  · cases e with
    | nil => exact (List.append_nil _).symm
    | cons d e =>
      unfold NormalizeState.adds at he hall
      split_ifs at he hall with hkept hspace hfirst
      · exact absurd (he.eq_of_length (Nat.le_antisymm he.length_le (by simp))) hall
      · exact absurd (he.eq_of_length (Nat.le_antisymm he.length_le (by simp))) hall
      · exact absurd (List.prefix_nil.mp he) (List.cons_ne_nil _ _)
      · obtain ⟨hquote, hc⟩ : s.inQuote = false ∧ c ≠ '\'' ∧ c ≠ '"' := by simpa [and_assoc] using hkept
        have hspace : T.isWhitespace c = false := eq_false_of_ne_true hspace
        rw [foldl_push_word hquote (fun d hd => ?_) (by simp)]
        have hd := he.subset hd
        exact ⟨(of_mem_toLowercase hspace hd).1, not_quote_of_mem_toLowercase hspace hc hd, T.toLowercase_fixed c d hd⟩

theorem prefix_append_cases {e l : List Char} (h : p <+: l ++ e) : p <+: l ∨ ∃ e', p = l ++ e' ∧ e' <+: e := by
  rcases List.prefix_or_prefix_of_prefix h (List.prefix_append l e) with hp | ⟨e', rfl⟩
  · exact .inl hp
  · exact .inr ⟨e', rfl, (List.prefix_append_right_inj l).mp h⟩

theorem normalizeLoop_append : normalizeLoop T (p ++ q) = q.foldl (·.push T) (normalizeLoop T p) :=
  List.foldl_append

theorem normalizeLoop_result (q : List Char) :
    normalizeLoop T (normalizeLoop T q).result = normalizeLoop T q ∧
      ∀ p, p <+: (normalizeLoop T q).result → (normalizeLoop T p).result = p := by
  induction q using List.reverseRecOn with
  | nil =>
    refine ⟨rfl, fun p hp => ?_⟩
    obtain rfl := List.prefix_nil.mp hp
    rfl
  | append_singleton q c ih =>
    obtain ⟨hsame, hprefix⟩ := ih
    rw [normalizeLoop_append, List.foldl_cons, List.foldl_nil, result_push]
    refine ⟨by rw [normalizeLoop_append, hsame, foldl_push_adds], fun p hp => ?_⟩
    rcases prefix_append_cases hp with hp | ⟨e, rfl, he⟩
    · exact hprefix p hp
    · rw [normalizeLoop_append, hsame, result_foldl_push_prefix he]

theorem trimEnd_isBeginning (l : List Char) : trimEnd T l <+: l := by
  have h := (List.dropWhile_suffix T.isWhitespace (l := l.reverse))
  rw [← List.reverse_prefix, List.reverse_reverse] at h
  exact h

theorem trimEnd_trimEnd (l : List Char) : trimEnd T (trimEnd T l) = trimEnd T l := by
  rw [trimEnd, trimEnd, List.reverse_reverse, List.dropWhile_idempotent]

theorem normalizeQuery_idempotent (q : List Char) : normalizeQuery T (normalizeQuery T q) = normalizeQuery T q := by
  have h : (normalizeLoop T (trimEnd T (normalizeLoop T q).result)).result = trimEnd T (normalizeLoop T q).result :=
    (normalizeLoop_result q).2 _ (trimEnd_isBeginning _)
  rw [normalizeQuery, normalizeQuery, h, trimEnd_trimEnd]

/-! ### Readings up to case -/

def LexItem.fold : LexItem → LexItem
  | .char c => .char c.toLower
  | .quoted text => .quoted text

def foldItems (items : List (Bool × LexItem)) : List (Bool × LexItem) := items.map fun i => (i.1, i.2.fold)

/-- A reading, with the case of the letters of code left out. -/
def Lexing.fold (l : Lexing) : Lexing := { l with items := foldItems l.items }

variable {l l' l₁ l₂ l₁' l₂' : Lexing} {item item' : LexItem} {m : Char}

theorem foldItems_append (items items' : List (Bool × LexItem)) :
    foldItems (items ++ items') = foldItems items ++ foldItems items' := List.map_append

theorem fold_emit : (l.emit item).fold = l.fold.emit item.fold := by
  simp [Lexing.fold, Lexing.emit, foldItems]

theorem fold_eq_iff : l₁.fold = l₂.fold ↔
    l₁.state = l₂.state ∧ l₁.gap = l₂.gap ∧ l₁.text = l₂.text ∧ foldItems l₁.items = foldItems l₂.items := by
  simp [Lexing.fold]

theorem readCode_fold (h : l₁.fold = l₂.fold) :
    (l₁.readCode T c).map Lexing.fold = (l₂.readCode T c).map Lexing.fold := by
  obtain ⟨hstate, hgap, htext, hitems⟩ := fold_eq_iff.mp h
  unfold Lexing.readCode Lexing.emit
  split_ifs <;> simp [Lexing.fold, foldItems_append, hgap, htext, hitems]

theorem read_fold (h : l₁.fold = l₂.fold) :
    (l₁.read T nested c).map Lexing.fold = (l₂.read T nested c).map Lexing.fold := by
  have hemit (item : LexItem) : (l₁.emit item).fold = (l₂.emit item).fold := by rw [fold_emit, fold_emit, h]
  obtain ⟨hstate, hgap, htext, hitems⟩ := fold_eq_iff.mp h
  unfold Lexing.read
  rw [hstate]
  cases l₂.state with
  | code => exact readCode_fold h
  | dash =>
    simp only
    split_ifs
    · simp [Lexing.fold, htext, hitems]
    · exact readCode_fold (hemit _)
  | slash =>
    simp only
    split_ifs
    · simp [Lexing.fold, htext, hitems]
    · exact readCode_fold (hemit _)
  | line =>
    simp only [Option.map_some]
    split_ifs
    · simp [Lexing.fold, hgap, htext, hitems]
    · rw [h]
  | block | blockStar | blockSlash => simp [Lexing.fold, hgap, htext, hitems]
  | quoted | escaped => simp [Lexing.fold, hgap, htext, hitems]
  | closing mark =>
    simp only
    split_ifs
    · simp [Lexing.fold, hgap, htext, hitems]
    · rw [htext]
      exact readCode_fold (hemit _)

/-! ### What is read as what -/

/-- The text is not inside a literal or identifier. -/
def LexState.outside : LexState → Bool
  | .quoted _ | .escaped _ => false
  | _ => true

theorem not_code_special_of_whitespace (h : T.isWhitespace c = true) :
    c ≠ '-' ∧ c ≠ '/' ∧ isMark c = false ∧ c ≠ '*' := by
  rcases eq_or_ne c '\n' with rfl | hne
  · decide
  · have hspecial := not_special_of_whitespace h hne
    simp only [isSpecial, Bool.or_eq_false_iff, decide_eq_false_iff_not] at hspecial
    exact ⟨hspecial.1.1.1.1.2, hspecial.1.1.1.2, hspecial.1.1.1.1.1, hspecial.1.1.2⟩

theorem readCode_space (h : T.isWhitespace c = true) :
    l.readCode T c = some { l with state := .code, gap := true } := by
  obtain ⟨hdash, hslash, hmark, -⟩ := not_code_special_of_whitespace h
  simp [Lexing.readCode, hdash, hslash, hmark, h]

def Lexing.afterSpace (l : Lexing) : Lexing :=
  match l.state with
  | .code => { l with gap := true }
  | .dash => { l.emit (.char '-') with state := .code, gap := true }
  | .slash => { l.emit (.char '/') with state := .code, gap := true }
  | .block depth | .blockStar depth | .blockSlash depth => { l with state := .block depth }
  | .closing _ => { l.emit (.quoted l.text) with state := .code, gap := true }
  | _ => l

/-- The marks of literals that the loop knows. -/
def LexState.knownMarks : LexState → Prop
  | .quoted mark | .escaped mark | .closing mark => mark = '\'' ∨ mark = '"'
  | _ => True

theorem read_space (h : T.isWhitespace c = true) (hout : l.state.outside = true) (hmarks : l.state.knownMarks)
    (hline : ¬(l.state = .line ∧ c = '\n')) : l.read T nested c = some l.afterSpace := by
  obtain ⟨hdash, hslash, hmark, hstar⟩ := not_code_special_of_whitespace h
  unfold Lexing.read Lexing.afterSpace
  rcases hstate : l.state with _ | _ | _ | _ | depth | depth | depth | mark | mark | mark
  · simp [readCode_space h]
  · simp [readCode_space h, hdash]
  · simp [readCode_space h, hstar]
  · have hne : c ≠ '\n' := fun heq => hline ⟨hstate, heq⟩
    simp [hne]
  · simp [Lexing.nextInBlock, hstar, hslash]
  · simp [Lexing.nextInBlock, hstar, hslash]
  · simp [Lexing.nextInBlock, hstar, hslash]
  · simp [hstate, LexState.outside] at hout
  · simp [hstate, LexState.outside] at hout
  · have hne : c ≠ mark := by
      rw [hstate] at hmarks
      rintro rfl
      rcases hmarks with rfl | rfl <;> exact absurd hmark (by decide)
    simp [readCode_space h, hne]

theorem not_special_iff : isSpecial c = false ↔
    isMark c = false ∧ c ≠ '-' ∧ c ≠ '/' ∧ c ≠ '*' ∧ c ≠ '\n' ∧ c ≠ '\\' := by
  simp [isSpecial, and_assoc]

theorem ne_mark {mark : Char} (hmark : isMark c = false) (h : mark = '\'' ∨ mark = '"') : c ≠ mark := by
  rintro rfl
  rcases h with rfl | rfl <;> exact absurd hmark (by decide)

theorem readCode_lower (hc : c.isAlpha = true) (hlower : c.toLower.isAlpha = true) :
    (l.readCode T c).map Lexing.fold = (l.readCode T c.toLower).map Lexing.fold := by
  have hread {d : Char} (hd : d.isAlpha = true) : l.readCode T d = some { l.emit (.char d) with state := .code } := by
    obtain ⟨hmark, hdash, hslash, -⟩ := not_special_iff.mp (not_special_of_alpha hd)
    simp [Lexing.readCode, hdash, hslash, hmark, isWhitespace_of_alpha hd, (ascii_of_alpha hd).not_ge]
  rw [hread hc, hread hlower]
  simp [Lexing.fold, Lexing.emit, foldItems, LexItem.fold, toLower_toLower (ascii_of_alpha hc)]

theorem read_lower (hc : c.toNat < 128) (hout : l.state.outside = true) (hmarks : l.state.knownMarks) :
    (l.read T nested c).map Lexing.fold = (l.read T nested c.toLower).map Lexing.fold := by
  rcases toLower_cases hc with heq | ⟨halpha, hlower⟩
  · rw [heq]
  · obtain ⟨hmark, hdash, hslash, hstar, hline, -⟩ := not_special_iff.mp (not_special_of_alpha halpha)
    obtain ⟨hmark', hdash', hslash', hstar', hline', -⟩ := not_special_iff.mp (not_special_of_alpha hlower)
    unfold Lexing.read
    rcases hstate : l.state with _ | _ | _ | _ | depth | depth | depth | mark | mark | mark
    · exact readCode_lower halpha hlower
    · simpa [hdash, hdash'] using readCode_lower halpha hlower
    · simpa [hstar, hstar'] using readCode_lower halpha hlower
    · simp [hline, hline']
    · simp [Lexing.nextInBlock, hstar, hslash, hstar', hslash']
    · simp [Lexing.nextInBlock, hstar, hslash, hstar', hslash']
    · simp [Lexing.nextInBlock, hstar, hslash, hstar', hslash']
    · simp [hstate, LexState.outside] at hout
    · simp [hstate, LexState.outside] at hout
    · rw [hstate] at hmarks
      simpa [ne_mark hmark hmarks, ne_mark hmark' hmarks] using readCode_lower halpha hlower

theorem read_comment (hc : isSpecial c = false) (hin : l.state.inComment = true) :
    l.read T nested c = some l.afterSpace := by
  obtain ⟨-, -, hslash, hstar, hline, -⟩ := not_special_iff.mp hc
  unfold Lexing.read Lexing.afterSpace
  rcases hstate : l.state with _ | _ | _ | _ | depth | depth | depth | mark | mark | mark
  all_goals first
    | (simp [hstate, LexState.inComment] at hin; done)
    | simp [Lexing.nextInBlock, hslash, hstar, hline]

theorem afterSpace_afterSpace : l.afterSpace.afterSpace = l.afterSpace := by
  unfold Lexing.afterSpace
  rcases hstate : l.state with _ | _ | _ | _ | depth | depth | depth | mark | mark | mark <;>
    simp [hstate, Lexing.emit]

theorem inComment_afterSpace (h : l.state.inComment = true) : l.afterSpace.state.inComment = true := by
  unfold Lexing.afterSpace
  rcases hstate : l.state with _ | _ | _ | _ | depth | depth | depth | mark | mark | mark
  all_goals simp_all [LexState.inComment]

theorem foldlM_read_comment {ds : List Char} (hds : ∀ d ∈ ds, isSpecial d = false) (hne : ds ≠ [])
    (hin : l.state.inComment = true) : ds.foldlM (·.read T nested) l = some l.afterSpace := by
  induction ds generalizing l with
  | nil => exact absurd rfl hne
  | cons d ds ih =>
    rw [List.foldlM_cons, read_comment (hds d List.mem_cons_self) hin, Option.bind_eq_bind, Option.bind_some]
    cases ds with
    | nil => rfl
    | cons e ds =>
      rw [ih (fun e he => hds e (List.mem_cons_of_mem _ he)) (List.cons_ne_nil _ _) (inComment_afterSpace hin),
        afterSpace_afterSpace]

theorem fold_afterSpace (h : l₁.fold = l₂.fold) : l₁.afterSpace.fold = l₂.afterSpace.fold := by
  obtain ⟨hstate, hgap, htext, hitems⟩ := fold_eq_iff.mp h
  unfold Lexing.afterSpace Lexing.emit
  rw [hstate]
  cases l₂.state <;> simp [Lexing.fold, foldItems_append, hstate, hgap, htext, hitems]

/-! ### The loop and the reading in step -/

/-- The flags of the loop say where the reading is. -/
def Matches (s : NormalizeState) : LexState → Prop
  | .quoted mark => ((mark = '\'' ∧ s.inSingleQuote = true ∧ s.inDoubleQuote = false) ∨
      (mark = '"' ∧ s.inSingleQuote = false ∧ s.inDoubleQuote = true)) ∧
      s.prevWasBackslash = false ∧ s.lastWasSpace = false
  | .escaped mark => ((mark = '\'' ∧ s.inSingleQuote = true ∧ s.inDoubleQuote = false) ∨
      (mark = '"' ∧ s.inSingleQuote = false ∧ s.inDoubleQuote = true)) ∧
      s.prevWasBackslash = true ∧ s.lastWasSpace = false
  | .closing mark => (mark = '\'' ∨ mark = '"') ∧
      s.inSingleQuote = false ∧ s.inDoubleQuote = false ∧ s.prevWasBackslash = false
  | _ => s.inSingleQuote = false ∧ s.inDoubleQuote = false ∧ s.prevWasBackslash = false

/-- The reading of the text and the reading of the result so far. -/
structure InStep (T : CharTables) (nested : Bool) (s : NormalizeState) (l₁ l₂ : Lexing) : Prop where
  lexed : lexLoop T nested s.result = some l₂
  alike : l₁.fold = l₂.fold
  flags : Matches s l₁.state
  space : s.lastWasSpace = true → l₁.afterSpace = l₁
  start : s.result = [] → l₁ = {}
  comment : l₁.state.inComment = true → l₁.gap = true

theorem Matches.knownMarks {state : LexState} (h : Matches s state) : state.knownMarks := by
  cases state with
  | quoted mark | escaped mark => exact h.1.imp And.left And.left
  | closing mark => exact h.1
  | _ => exact trivial

theorem Matches.inQuote_iff {state : LexState} (h : Matches s state) : s.inQuote = true ↔ state.outside = false := by
  cases state with
  | quoted mark | escaped mark =>
    rcases h.1 with ⟨-, hsingle, hdouble⟩ | ⟨-, hsingle, hdouble⟩ <;>
      simp [NormalizeState.inQuote, LexState.outside, hsingle, hdouble]
  | closing mark => simp [NormalizeState.inQuote, LexState.outside, h.2.1, h.2.2.1]
  | _ => simp [NormalizeState.inQuote, LexState.outside, h.1, h.2.1]

theorem Matches.outside {state : LexState} (h : Matches s state) (hquote : s.inQuote = false) :
    state.outside = true := by
  cases hout : state.outside with
  | true => rfl
  | false =>
    rw [h.inQuote_iff.mpr hout] at hquote
    cases hquote

theorem read_not_ascii (hc : 128 ≤ c.toNat) (hspace : T.isWhitespace c = false) (hout : l.state.outside = true)
    (hmarks : l.state.knownMarks) (hin : l.state.inComment = false) : l.read T nested c = none := by
  obtain ⟨hmark, hdash, hslash, hstar, -⟩ := not_special_iff.mp (not_special_of_not_ascii hc)
  have hread (l : Lexing) : l.readCode T c = none := by
    simp [Lexing.readCode, hdash, hslash, hmark, hspace, hc]
  unfold Lexing.read
  rcases hstate : l.state with _ | _ | _ | _ | depth | depth | depth | mark | mark | mark
  all_goals rw [hstate] at hout hmarks hin
  · exact hread l
  · simp [hdash, hread]
  · simp [hstar, hread]
  · cases hin
  · cases hin
  · cases hin
  · cases hin
  · cases hout
  · cases hout
  · simp [ne_mark hmark hmarks, hread]

/-- What the loop adds to the result is read as the character is. -/
theorem InStep.reads (h : InStep T nested s l₁ l₂)
    (hline : ¬(l₁.state = .line ∧ c = '\n')) (hread : l₁.read T nested c = some l₁') :
    ∃ l₂', (s.adds T c).foldlM (·.read T nested) l₂ = some l₂' ∧ l₁'.fold = l₂'.fold := by
  have hone {x : Char} (hx : (l₁.read T nested c).map Lexing.fold = (l₂.read T nested x).map Lexing.fold) :
      ∃ l₂', [x].foldlM (·.read T nested) l₂ = some l₂' ∧ l₁'.fold = l₂'.fold := by
    rw [hread, Option.map_some] at hx
    obtain ⟨l₂', hl₂', hfold⟩ := Option.map_eq_some_iff.mp hx.symm
    exact ⟨l₂', by simp [hl₂'], hfold.symm⟩
  have hmarks := h.flags.knownMarks
  unfold NormalizeState.adds
  split_ifs with hkept hspace hfirst
  · exact hone (read_fold h.alike)
  all_goals
    obtain ⟨hquote, hc⟩ : s.inQuote = false ∧ c ≠ '\'' ∧ c ≠ '"' := by simpa [and_assoc] using hkept
    have hout := h.flags.outside hquote
  · have hspace₁ : l₁.read T nested ' ' = l₁.read T nested c := by
      rw [read_space isWhitespace_space hout hmarks (by simp), read_space hspace hout hmarks hline]
    refine hone ?_
    rw [← hspace₁]
    exact read_fold h.alike
  · obtain rfl : l₁.afterSpace = l₁' := Option.some.inj ((read_space hspace hout hmarks hline).symm.trans hread)
    have hsame : l₁.afterSpace = l₁ := by
      rcases Bool.eq_false_or_eq_true s.lastWasSpace with hlast | hlast
      · exact h.space hlast
      · have hempty : s.result = [] := by simpa [hlast] using hfirst
        rw [h.start hempty]
        rfl
    exact ⟨l₂, rfl, (congrArg Lexing.fold hsame).trans h.alike⟩
  · have hspace : T.isWhitespace c = false := eq_false_of_ne_true hspace
    rcases Nat.lt_or_ge c.toNat 128 with hascii | hascii
    · rw [T.toLowercase_ascii c hascii]
      exact hone ((read_lower hascii hout hmarks).trans (read_fold h.alike))
    · have hin : l₁.state.inComment = true := by
        refine eq_true_of_ne_false fun hin => ?_
        rw [read_not_ascii hascii hspace hout hmarks hin] at hread
        cases hread
      obtain rfl : l₁.afterSpace = l₁' :=
        Option.some.inj ((read_comment (not_special_of_not_ascii hascii) hin).symm.trans hread)
      have hstate := (fold_eq_iff.mp h.alike).1
      refine ⟨_, foldlM_read_comment (fun d hd => ?_) (T.toLowercase_ne_nil c) (hstate ▸ hin), fold_afterSpace h.alike⟩
      exact (T.toLowercase_other c hascii hspace d hd).2.elim not_special_of_alpha not_special_of_not_ascii

/-- Outside of literals, and neither behind a closing mark. -/
def LexState.bare : LexState → Bool
  | .quoted _ | .escaped _ | .closing _ => false
  | _ => true

theorem matches_of_bare {state : LexState} (hbare : state.bare = true) (hquote : s.inQuote = false)
    (hprev : s.prevWasBackslash = false) : Matches s state := by
  obtain ⟨hsingle, hdouble⟩ : s.inSingleQuote = false ∧ s.inDoubleQuote = false := by
    simpa [NormalizeState.inQuote] using hquote
  cases state with
  | quoted | escaped | closing => cases hbare
  | _ => exact ⟨hsingle, hdouble, hprev⟩

theorem Matches.prev {state : LexState} (h : Matches s state) (hout : state.outside = true) :
    s.prevWasBackslash = false := by
  cases state with
  | quoted | escaped => cases hout
  | closing => exact h.2.2.2
  | _ => exact h.2.2

theorem readCode_bare (hmark : isMark c = false) (hread : l.readCode T c = some l') : l'.state.bare = true := by
  simp only [Lexing.readCode, hmark, Bool.false_eq_true, if_false] at hread
  split_ifs at hread
  all_goals
    obtain rfl := Option.some.inj hread
    rfl

theorem nextInBlock_bare {depth : Nat} : (Lexing.nextInBlock nested depth c).bare = true := by
  unfold Lexing.nextInBlock
  split_ifs <;> rfl

theorem isMark_eq_false (hc : c ≠ '\'' ∧ c ≠ '"') (hback : c ≠ '\x60') : isMark c = false := by
  simp [isMark, hc.1, hc.2, hback]

theorem read_bare (hout : l.state.outside = true) (hmarks : l.state.knownMarks) (hc : c ≠ '\'' ∧ c ≠ '"')
    (hback : l.state.inCode = true → c ≠ '\x60') (hread : l.read T nested c = some l') : l'.state.bare = true := by
  unfold Lexing.read at hread
  rcases hstate : l.state with _ | _ | _ | _ | depth | depth | depth | mark | mark | mark
  all_goals
    rw [hstate] at hout hmarks hback
    simp only [hstate] at hread
  · exact readCode_bare (isMark_eq_false hc (hback rfl)) hread
  · split_ifs at hread
    · obtain rfl := Option.some.inj hread
      rfl
    · exact readCode_bare (isMark_eq_false hc (hback rfl)) hread
  · split_ifs at hread
    · obtain rfl := Option.some.inj hread
      rfl
    · exact readCode_bare (isMark_eq_false hc (hback rfl)) hread
  · obtain rfl := Option.some.inj hread
    split_ifs
    · rfl
    · simp [hstate, LexState.bare]
  · obtain rfl := Option.some.inj hread
    exact nextInBlock_bare
  · obtain rfl := Option.some.inj hread
    dsimp only
    split_ifs
    · rfl
    · rfl
    · exact nextInBlock_bare
  · obtain rfl := Option.some.inj hread
    dsimp only
    split_ifs
    · rfl
    · exact nextInBlock_bare
  · cases hout
  · cases hout
  · have hmark := isMark_eq_false hc (hback rfl)
    rw [if_neg (ne_mark hmark hmarks)] at hread
    exact readCode_bare hmark hread

theorem read_mark (hc : c = '\'' ∨ c = '"') (hout : l.state.outside = true) (hin : l.state.inComment = false)
    (hread : l.read T nested c = some l') : l'.state = .quoted c := by
  have hcode {k k' : Lexing} (h : k.readCode T c = some k') : k'.state = .quoted c := by
    have hne : c ≠ '-' ∧ c ≠ '/' ∧ isMark c = true := by rcases hc with rfl | rfl <;> decide
    simp only [Lexing.readCode, hne.1, hne.2.1, hne.2.2, if_true, if_false, Option.some.injEq] at h
    rw [← h]
  have hne : c ≠ '-' ∧ c ≠ '*' := by rcases hc with rfl | rfl <;> decide
  unfold Lexing.read at hread
  rcases hstate : l.state with _ | _ | _ | _ | depth | depth | depth | mark | mark | mark
  all_goals
    rw [hstate] at hout hin
    simp only [hstate] at hread
  · exact hcode hread
  · rw [if_neg hne.1] at hread
    exact hcode hread
  · rw [if_neg hne.2] at hread
    exact hcode hread
  · cases hin
  · cases hin
  · cases hin
  · cases hin
  · cases hout
  · cases hout
  · split_ifs at hread with heq
    · rw [← Option.some.inj hread, heq]
    · exact hcode hread

theorem push_mark (hquote : s.inQuote = false) (hc : c = '\'' ∨ c = '"') :
    s.push T c = { s with
      inSingleQuote := c = '\''
      inDoubleQuote := c = '"'
      lastWasSpace := false
      result := s.result ++ [c] } := by
  obtain ⟨hsingle, hdouble⟩ : s.inSingleQuote = false ∧ s.inDoubleQuote = false := by
    simpa [NormalizeState.inQuote] using hquote
  rcases hc with rfl | rfl <;> simp [NormalizeState.push, hsingle, hdouble]

/-- The flags say where the reading is after a character, too. -/
theorem Matches.push (h : Matches s l.state) (hplain : PlainChar T l.state c rest)
    (hread : l.read T nested c = some l') : Matches (s.push T c) l'.state := by
  have hmarks := h.knownMarks
  rcases Bool.eq_false_or_eq_true s.inQuote with hquote | hquote
  · have hout := h.inQuote_iff.mp hquote
    unfold Lexing.read at hread
    rcases hstate : l.state with _ | _ | _ | _ | depth | depth | depth | mark | mark | mark
    all_goals first
      | (rw [hstate] at hout; cases hout; done)
      | skip
    all_goals
      rw [hstate] at h
      simp only [hstate, Option.some.injEq] at hread
      obtain ⟨hmark, hprev, hlast⟩ := h
      rw [← hread]
      rcases hmark with ⟨rfl, hsingle, hdouble⟩ | ⟨rfl, hsingle, hdouble⟩
    · rcases eq_or_ne c '\'' with rfl | hne
      · simp [Matches, NormalizeState.push, hsingle, hdouble, hprev]
      · by_cases hback : c = '\\' <;>
          simp [Matches, NormalizeState.push, hsingle, hdouble, hprev, hlast, hne, hback]
    · rcases eq_or_ne c '"' with rfl | hne
      · simp [Matches, NormalizeState.push, hsingle, hdouble, hprev]
      · by_cases hback : c = '\\' <;>
          simp [Matches, NormalizeState.push, hsingle, hdouble, hprev, hlast, hne, hback]
    · simp [Matches, NormalizeState.push, hsingle, hdouble, hprev, hlast]
    · simp [Matches, NormalizeState.push, hsingle, hdouble, hprev, hlast]
  · have hout := h.outside hquote
    have hprev := h.prev hout
    by_cases hc : c = '\'' ∨ c = '"'
    · have hin : l.state.inComment = false := by
        refine eq_false_of_ne_true fun hin => ?_
        exact hc.elim (hplain.quote hin).1 (hplain.quote hin).2
      rw [read_mark hc hout hin hread, push_mark hquote hc]
      rcases hc with rfl | rfl <;> simp [Matches, hprev]
    · obtain hc : c ≠ '\'' ∧ c ≠ '"' := not_or.mp hc
      have hbare := read_bare hout hmarks hc hplain.backtick hread
      rcases Bool.eq_false_or_eq_true (T.isWhitespace c) with hspace | hspace
      · rw [push_space hquote hspace hc]
        split_ifs
        · exact matches_of_bare hbare hquote hprev
        · exact matches_of_bare hbare hquote hprev
      · rw [push_word hquote hspace hc]
        exact matches_of_bare hbare hquote hprev

theorem gap_of_inComment (hgap : l.state.inComment = true → l.gap = true) (hread : l.read T nested c = some l')
    (hin : l'.state.inComment = true) : l'.gap = true := by
  have hcode {k k' : Lexing} (h : k.readCode T c = some k') : k'.state.inComment = false := by
    unfold Lexing.readCode at h
    split_ifs at h
    all_goals
      obtain rfl := Option.some.inj h
      rfl
  unfold Lexing.read at hread
  rcases hstate : l.state with _ | _ | _ | _ | depth | depth | depth | mark | mark | mark
  all_goals
    rw [hstate] at hgap
    simp only [hstate] at hread
  · rw [hcode hread] at hin
    cases hin
  · split_ifs at hread
    · rw [← Option.some.inj hread]
    · rw [hcode hread] at hin
      cases hin
  · split_ifs at hread
    · rw [← Option.some.inj hread]
    · rw [hcode hread] at hin
      cases hin
  · rw [← Option.some.inj hread]
    split_ifs
    · exact hgap rfl
    · exact hgap rfl
  · rw [← Option.some.inj hread]
    exact hgap rfl
  · rw [← Option.some.inj hread]
    exact hgap rfl
  · rw [← Option.some.inj hread]
    exact hgap rfl
  · rw [← Option.some.inj hread] at hin
    simp only at hin
    split_ifs at hin <;> cases hin
  · rw [← Option.some.inj hread] at hin
    cases hin
  · split_ifs at hread
    · rw [← Option.some.inj hread] at hin
      cases hin
    · rw [hcode hread] at hin
      cases hin

theorem Matches.lastWasSpace {state : LexState} (h : Matches s state) (hquote : s.inQuote = true) :
    s.lastWasSpace = false := by
  have hout := h.inQuote_iff.mp hquote
  cases state with
  | quoted | escaped => exact h.2.2
  | _ => cases hout

theorem afterSpace_of_lastWasSpace (h : Matches s l.state) (hline : ¬(l.state = .line ∧ c = '\n'))
    (hread : l.read T nested c = some l') (hlast : (s.push T c).lastWasSpace = true) :
    l' = l.afterSpace := by
  rcases Bool.eq_false_or_eq_true s.inQuote with hquote | hquote
  · have hkept : (s.push T c).lastWasSpace = s.lastWasSpace := by
      unfold NormalizeState.inQuote at hquote
      unfold NormalizeState.push
      split_ifs <;> simp_all
    rw [hkept, h.lastWasSpace hquote] at hlast
    cases hlast
  · by_cases hc : c = '\'' ∨ c = '"'
    · rw [push_mark hquote hc] at hlast
      cases hlast
    · obtain hc : c ≠ '\'' ∧ c ≠ '"' := not_or.mp hc
      rcases Bool.eq_false_or_eq_true (T.isWhitespace c) with hspace | hspace
      · exact Option.some.inj (hread.symm.trans (read_space hspace (h.outside hquote) h.knownMarks hline))
      · rw [push_word hquote hspace hc] at hlast
        cases hlast

theorem adds_eq_nil (h : s.adds T c = []) : s.inQuote = false ∧ T.isWhitespace c = true := by
  unfold NormalizeState.adds at h
  split_ifs at h with hkept hspace
  · obtain ⟨hquote, -⟩ : s.inQuote = false ∧ c ≠ '\'' ∧ c ≠ '"' := by simpa [and_assoc] using hkept
    exact ⟨hquote, hspace⟩
  · exact absurd h (T.toLowercase_ne_nil c)

theorem InStep.push (h : InStep T nested s l₁ l₂) (hplain : PlainChar T l₁.state c rest)
    (hline : ¬(l₁.state = .line ∧ c = '\n')) (hread : l₁.read T nested c = some l₁') :
    ∃ l₂', InStep T nested (s.push T c) l₁' l₂' := by
  obtain ⟨l₂', hadds, halike⟩ := h.reads hline hread
  refine ⟨l₂', ?_, halike, h.flags.push hplain hread, fun hlast => ?_, fun hempty => ?_,
    gap_of_inComment h.comment hread⟩
  · have hbefore : s.result.foldlM (·.read T nested) {} = some l₂ := h.lexed
    rw [lexLoop, result_push, List.foldlM_append, hbefore]
    exact hadds
  · rw [afterSpace_of_lastWasSpace h.flags hline hread hlast, afterSpace_afterSpace]
  · rw [result_push] at hempty
    obtain ⟨hresult, hnone⟩ := List.append_eq_nil_iff.mp hempty
    obtain ⟨hquote, hspace⟩ := adds_eq_nil hnone
    have hout := h.flags.outside hquote
    obtain rfl := Option.some.inj ((read_space hspace hout h.flags.knownMarks hline).symm.trans hread)
    rw [h.start hresult]
    rfl

/-! ### The end of a text -/

def LexState.openedByMark : LexState → Prop
  | .quoted mark | .escaped mark | .closing mark => isMark mark = true
  | _ => True

theorem openedByMark_of_bare {state : LexState} (h : state.bare = true) : state.openedByMark := by
  cases state with
  | quoted | escaped | closing => cases h
  | _ => exact trivial

theorem openedByMark_read (h : l.state.openedByMark) (hread : l.read T nested c = some l') :
    l'.state.openedByMark := by
  have hcode {k k' : Lexing} (hk : k.readCode T c = some k') : k'.state.openedByMark := by
    unfold Lexing.readCode at hk
    split_ifs at hk with _ _ hmark
    all_goals
      obtain rfl := Option.some.inj hk
      first
        | exact hmark
        | exact trivial
  unfold Lexing.read at hread
  rcases hstate : l.state with _ | _ | _ | _ | depth | depth | depth | mark | mark | mark
  all_goals
    rw [hstate] at h
    simp only [hstate] at hread
  · exact hcode hread
  · split_ifs at hread
    · rw [← Option.some.inj hread]
      exact trivial
    · exact hcode hread
  · split_ifs at hread
    · rw [← Option.some.inj hread]
      exact trivial
    · exact hcode hread
  · rw [← Option.some.inj hread]
    split_ifs
    · exact trivial
    · simp [hstate, LexState.openedByMark]
  · rw [← Option.some.inj hread]
    exact openedByMark_of_bare nextInBlock_bare
  · rw [← Option.some.inj hread]
    dsimp only
    split_ifs
    · exact trivial
    · exact trivial
    · exact openedByMark_of_bare nextInBlock_bare
  · rw [← Option.some.inj hread]
    dsimp only
    split_ifs
    · exact trivial
    · exact openedByMark_of_bare nextInBlock_bare
  · rw [← Option.some.inj hread]
    dsimp only
    split_ifs <;> exact h
  · rw [← Option.some.inj hread]
    exact h
  · split_ifs at hread
    · rw [← Option.some.inj hread]
      exact h
    · exact hcode hread

theorem ne_mark_of_whitespace {mark : Char} (h : T.isWhitespace c = true) (hmark : isMark mark = true) : c ≠ mark := by
  rintro rfl
  rw [(not_code_special_of_whitespace h).2.2.1] at hmark
  cases hmark

variable (nested) in
theorem finish_read_space (h : T.isWhitespace c = true) (hmarks : l.state.openedByMark) :
    ∃ l', l.read T nested c = some l' ∧ l'.finish = l.finish := by
  obtain ⟨hdash, hslash, -, hstar⟩ := not_code_special_of_whitespace h
  have hback : c ≠ '\\' := by
    rintro rfl
    rw [T.isWhitespace_ascii _ (by decide)] at h
    exact absurd h (by decide)
  unfold Lexing.read
  rcases hstate : l.state with _ | _ | _ | _ | depth | depth | depth | mark | mark | mark
  all_goals rw [hstate] at hmarks
  · exact ⟨_, readCode_space h, by simp [Lexing.finish, hstate]⟩
  · exact ⟨_, (if_neg hdash).trans (readCode_space h), by simp [Lexing.finish, hstate]⟩
  · exact ⟨_, (if_neg hstar).trans (readCode_space h), by simp [Lexing.finish, hstate]⟩
  · refine ⟨_, rfl, ?_⟩
    split_ifs
    · simp [Lexing.finish, hstate]
    · rfl
  · exact ⟨_, rfl, by simp [Lexing.finish, hstate, Lexing.nextInBlock, hstar, hslash]⟩
  · exact ⟨_, rfl, by simp [Lexing.finish, hstate, Lexing.nextInBlock, hstar, hslash]⟩
  · exact ⟨_, rfl, by simp [Lexing.finish, hstate, Lexing.nextInBlock, hstar, hslash]⟩
  · exact ⟨_, rfl, by simp [Lexing.finish, hstate, ne_mark_of_whitespace h hmarks, hback]⟩
  · exact ⟨_, rfl, by simp [Lexing.finish, hstate]⟩
  · refine ⟨_, (if_neg (ne_mark_of_whitespace h hmarks)).trans (readCode_space h), ?_⟩
    simp [Lexing.finish, hstate]

variable (nested) in
theorem finish_foldlM_spaces {w : List Char} (hw : ∀ d ∈ w, T.isWhitespace d = true) (hmarks : l.state.openedByMark) :
    ∃ l', w.foldlM (·.read T nested) l = some l' ∧ l'.finish = l.finish := by
  induction w generalizing l with
  | nil => exact ⟨l, rfl, rfl⟩
  | cons d w ih =>
    obtain ⟨l', hread, hfinish⟩ := finish_read_space nested (hw d List.mem_cons_self) hmarks
    obtain ⟨l'', hrest, hfinish'⟩ := ih (fun e he => hw e (List.mem_cons_of_mem _ he)) (openedByMark_read hmarks hread)
    refine ⟨l'', ?_, hfinish'.trans hfinish⟩
    rw [List.foldlM_cons, hread]
    exact hrest

theorem openedByMark_lexLoop {l₀ : Lexing} (h₀ : l₀.state.openedByMark)
    (h : q.foldlM (·.read T nested) l₀ = some l) : l.state.openedByMark := by
  induction q generalizing l₀ with
  | nil =>
    obtain rfl := Option.some.inj h
    exact h₀
  | cons c q ih =>
    rw [List.foldlM_cons] at h
    obtain ⟨l', hread, hrest⟩ := Option.bind_eq_some_iff.mp h
    exact ih (openedByMark_read h₀ hread) hrest

theorem trimEnd_append (T : CharTables) (r : List Char) :
    ∃ w, r = trimEnd T r ++ w ∧ ∀ d ∈ w, T.isWhitespace d = true := by
  refine ⟨(r.reverse.takeWhile T.isWhitespace).reverse, ?_, fun d hd => ?_⟩
  · rw [trimEnd, ← List.reverse_append, List.takeWhile_append_dropWhile, List.reverse_reverse]
  · exact List.mem_takeWhile_imp (List.mem_reverse.mp hd)

theorem lexItems_trimEnd (h : lexLoop T nested p = some l) :
    ∃ l', lexLoop T nested (trimEnd T p) = some l' ∧ l'.finish = l.finish := by
  obtain ⟨w, hp, hw⟩ := trimEnd_append T p
  rw [hp, lexLoop, List.foldlM_append] at h
  obtain ⟨l', hread, hrest⟩ := Option.bind_eq_some_iff.mp h
  refine ⟨l', hread, ?_⟩
  have hmarks : l'.state.openedByMark := openedByMark_lexLoop (show LexState.code.openedByMark from trivial) hread
  obtain ⟨l'', hspaces, hfinish⟩ := finish_foldlM_spaces nested hw hmarks
  obtain rfl := Option.some.inj (hspaces.symm.trans hrest)
  exact hfinish.symm

theorem finish_fold (h : l₁.fold = l₂.fold) : l₁.finish.map foldItems = l₂.finish.map foldItems := by
  obtain ⟨hstate, hgap, htext, hitems⟩ := fold_eq_iff.mp h
  unfold Lexing.finish Lexing.emit
  rw [hstate]
  cases l₂.state <;> simp [foldItems_append, hgap, htext, hitems]

/-! ### A whole text -/

/-- Every character behind a reading is plain. -/
def PlainFrom (T : CharTables) (nested : Bool) (l₀ : Lexing) (q : List Char) : Prop :=
  ∀ before c rest l, q = before ++ c :: rest → before.foldlM (·.read T nested) l₀ = some l → PlainChar T l.state c rest

theorem PlainFrom.head (h : PlainFrom T nested l (c :: q)) : PlainChar T l.state c q := h [] c q l rfl rfl

theorem PlainFrom.tail (h : PlainFrom T nested l (c :: q)) (hread : l.read T nested c = some l') :
    PlainFrom T nested l' q := by
  intro before d rest k hq hbefore
  refine h (c :: before) d rest k (by rw [hq, List.cons_append]) ?_
  rw [List.foldlM_cons, hread]
  exact hbefore

theorem result_foldl_push_spaces (hquote : s.inQuote = false) (hq : ∀ d ∈ q, T.isWhitespace d = true) :
    ∃ w, (q.foldl (·.push T) s).result = s.result ++ w ∧ ∀ d ∈ w, T.isWhitespace d = true := by
  induction q generalizing s with
  | nil => exact ⟨[], (List.append_nil _).symm, by simp⟩
  | cons c q ih =>
    have hspace := hq c List.mem_cons_self
    have hc : c ≠ '\'' ∧ c ≠ '"' := by
      have hmark := (not_code_special_of_whitespace hspace).2.2.1
      simp only [isMark, Bool.or_eq_false_iff, decide_eq_false_iff_not] at hmark
      exact hmark.1
    have hkept : (s.push T c).inQuote = false := by
      rw [push_space hquote hspace hc]
      split_ifs
      · exact hquote
      · exact hquote
    obtain ⟨w, hresult, hw⟩ := ih hkept fun d hd => hq d (List.mem_cons_of_mem _ hd)
    refine ⟨s.adds T c ++ w, ?_, fun d hd => ?_⟩
    · rw [List.foldl_cons, hresult, result_push, List.append_assoc]
    · rcases List.mem_append.mp hd with hd | hd
      · unfold NormalizeState.adds at hd
        split_ifs at hd
        · obtain rfl := List.mem_singleton.mp hd
          exact hspace
        · obtain rfl := List.mem_singleton.mp hd
          exact isWhitespace_space
        · cases hd
      · exact hw d hd

/-- From readings in step, the rest of a plain text and what the loop makes of it are read alike. -/
theorem InStep.run (h : InStep T nested s l₁ l₂) (hplain : PlainFrom T nested l₁ q)
    (hread : q.foldlM (·.read T nested) l₁ = some l₁') :
    ∃ l₂', lexLoop T nested (q.foldl (·.push T) s).result = some l₂' ∧
      l₁'.finish.map foldItems = l₂'.finish.map foldItems := by
  induction q generalizing s l₁ l₂ with
  | nil =>
    obtain rfl := Option.some.inj hread
    exact ⟨l₂, h.lexed, finish_fold h.alike⟩
  | cons c q ih =>
    by_cases hline : l₁.state = .line ∧ c = '\n'
    · -- behind the newline there are only spaces, which change nothing on either side
      have hspaces : ∀ d ∈ c :: q, T.isWhitespace d = true := by
        refine List.forall_mem_cons.mpr ⟨?_, hplain.head.newline hline.1 hline.2⟩
        rw [hline.2]
        exact T.isWhitespace_ascii '\n' (by decide)
      have hmarks₁ : l₁.state.openedByMark := by
        rw [hline.1]
        exact trivial
      have hquote : s.inQuote = false := by
        refine eq_false_of_ne_true fun hquote => ?_
        have hout := h.flags.inQuote_iff.mp hquote
        rw [hline.1] at hout
        cases hout
      obtain ⟨k₁, hk₁, hfinish₁⟩ := finish_foldlM_spaces nested hspaces hmarks₁
      obtain rfl := Option.some.inj (hk₁.symm.trans hread)
      obtain ⟨w, hresult, hw⟩ := result_foldl_push_spaces hquote hspaces
      have hmarks₂ : l₂.state.openedByMark := by
        rw [← (fold_eq_iff.mp h.alike).1]
        exact hmarks₁
      obtain ⟨k₂, hk₂, hfinish₂⟩ := finish_foldlM_spaces nested hw hmarks₂
      have hbefore : s.result.foldlM (·.read T nested) {} = some l₂ := h.lexed
      refine ⟨k₂, ?_, ?_⟩
      · rw [hresult, lexLoop, List.foldlM_append, hbefore]
        exact hk₂
      · rw [hfinish₁, hfinish₂]
        exact finish_fold h.alike
    · rw [List.foldlM_cons] at hread
      obtain ⟨k₁, hstep, hrest⟩ := Option.bind_eq_some_iff.mp hread
      obtain ⟨k₂, hk⟩ := h.push hplain.head hline hstep
      exact ih hk (hplain.tail hstep) hrest

theorem inStep_start : InStep T nested {} {} {} where
  lexed := rfl
  alike := rfl
  flags := ⟨rfl, rfl, rfl⟩
  space := fun _ => rfl
  start := fun _ => rfl
  comment := fun _ => rfl

theorem lexItems_normalizeQuery (hplain : PlainQuery T nested q) {items : List (Bool × LexItem)}
    (hitems : lexItems T nested q = some items) :
    ∃ items', lexItems T nested (normalizeQuery T q) = some items' ∧ foldItems items' = foldItems items := by
  obtain ⟨l, hread, hfinish⟩ := Option.bind_eq_some_iff.mp hitems
  obtain ⟨l', hread', halike⟩ := inStep_start.run hplain hread
  obtain ⟨l'', hread'', hfinish''⟩ := lexItems_trimEnd hread'
  rw [hfinish, Option.map_some] at halike
  obtain ⟨items', hitems', heq⟩ := Option.map_eq_some_iff.mp halike.symm
  refine ⟨items', ?_, heq⟩
  rw [lexItems, normalizeQuery, normalizeLoop, hread'', Option.bind_some, hfinish'', hitems']

/-! ### Tokens up to case -/

theorem words_fold (run : List Char) : (S.words run).map Token.fold = S.words (run.map Char.toLower) := by
  unfold Splitter.words
  cases run with
  | nil => rfl
  | cons c run =>
    rw [if_neg (List.cons_ne_nil c run), if_neg (by simp), S.split_lower]
    simp [Token.fold]

theorem tokens_fold (run : List Char) (items : List (Bool × LexItem)) :
    (S.tokens run items).map Token.fold = S.tokens (run.map Char.toLower) (foldItems items) := by
  induction items generalizing run with
  | nil => exact words_fold run
  | cons i items ih =>
    obtain ⟨gap, item⟩ := i
    cases item with
    | char c =>
      cases gap with
      | true => simpa [Splitter.tokens, foldItems, LexItem.fold, words_fold] using ih [c]
      | false => simpa [Splitter.tokens, foldItems, LexItem.fold] using ih (run ++ [c])
    | quoted text => simpa [Splitter.tokens, foldItems, LexItem.fold, Token.fold, words_fold] using ih []

theorem tokensOf_normalizeQuery (hplain : PlainQuery T nested q) {tokens : List Token}
    (htokens : tokensOf T S nested q = some tokens) :
    ∃ tokens', tokensOf T S nested (normalizeQuery T q) = some tokens' ∧
      tokens'.map Token.fold = tokens.map Token.fold := by
  obtain ⟨items, hitems, rfl⟩ := Option.map_eq_some_iff.mp htokens
  obtain ⟨items', hitems', heq⟩ := lexItems_normalizeQuery hplain hitems
  refine ⟨S.tokens [] items', Option.map_eq_some_iff.mpr ⟨items', hitems', rfl⟩, ?_⟩
  rw [tokens_fold, tokens_fold, heq]

/-! ### The promise -/

/-- Where both texts are plain, normalizing merges them only if they have the same tokens, and twice is once. -/
theorem normalizeRight_of_plain {q₁ q₂ : List Char} (h₁ : PlainQuery T nested q₁) (h₂ : PlainQuery T nested q₂) :
    NormalizeRight T S nested q₁ q₂ where
  idempotent := normalizeQuery_idempotent q₁
  merges := by
    intro tokens₁ htokens₁ tokens₂ htokens₂ hsame
    obtain ⟨tokens₁', hnormal₁, hfold₁⟩ := tokensOf_normalizeQuery h₁ htokens₁
    obtain ⟨tokens₂', hnormal₂, hfold₂⟩ := tokensOf_normalizeQuery h₂ htokens₂
    rw [hsame, hnormal₂] at hnormal₁
    obtain rfl := Option.some.inj hnormal₁
    exact hfold₁.symm.trans hfold₂

def asciiTables : CharTables where
  isWhitespace c := c = ' ' || (9 ≤ c.toNat && c.toNat ≤ 13)
  toLowercase c := if c.toNat < 128 then [c.toLower] else [c]
  isWhitespace_ascii _ _ := rfl
  toLowercase_ascii _ hc := if_pos hc
  toLowercase_ne_nil c := by split_ifs <;> simp
  toLowercase_fixed c d hd := by
    split_ifs at hd with hc
    · obtain rfl := List.mem_singleton.mp hd
      rw [if_pos (toLower_ascii hc), toLower_toLower hc]
    · obtain rfl := List.mem_singleton.mp hd
      exact if_neg hc
  toLowercase_other c hc hspace d hd := by
    rw [if_neg hc.not_gt] at hd
    obtain rfl := List.mem_singleton.mp hd
    exact ⟨hspace, .inr hc⟩

def wholeRuns : Splitter where
  split run := [run]
  split_lower _ := rfl

theorem plainQuery_of_all (h : q.all (fun c => !isMark c && c ≠ '\n') = true) : PlainQuery T nested q := by
  rintro before c rest l rfl -
  obtain ⟨hmark, hline⟩ : isMark c = false ∧ c ≠ '\n' := by simpa using List.all_eq_true.mp h c (by simp)
  have hmarks : (c ≠ '\'' ∧ c ≠ '"') ∧ c ≠ '\x60' := by simpa [isMark] using hmark
  exact ⟨fun _ => hmarks.2, fun _ => hmarks.1, fun _ hc => absurd hc hline⟩

theorem normalizeRight_of_plain_select :
    NormalizeRight asciiTables wholeRuns true "SELECT  A -- x".toList "select a -- X".toList :=
  normalizeRight_of_plain (plainQuery_of_all rfl) (plainQuery_of_all rfl)

/-- The newline that ends a comment becomes a space, so that what follows it is taken for a part of the comment. -/
theorem not_normalizeRight :
    ¬NormalizeRight asciiTables wholeRuns true "1 -- a\n, 2".toList "1 -- a , 2".toList := by
  intro h
  have hsame := h.merges [.word ['1'], .word [','], .word ['2']] (by decide) [.word ['1']] (by decide) (by decide)
  exact absurd hsame (by decide)

end Reiver.Pond
