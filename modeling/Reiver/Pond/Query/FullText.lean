import Reiver.Lib.Runs
import Reiver.Pond.Arrow
import Reiver.Pond.Indexes.Pruning
import Reiver.Pond.Query.Rewriter

/-! # Full-text pruning

The model of `fulltext_index.rs`, of `extract_token_values` of `job_worker.rs` and of the `hasToken` arm of
`extract_predicates_from_expr`. The index cuts a text into words of its own kind, lowers their case and drops the
short ones; `hasToken` compares tokens as they stand (`tokenPruning_iff`). -/

namespace Reiver.Pond

/-- The Unicode tables of the standard library. -/
structure Unicode where
  isAlphanumeric : Char → Bool
  toLowercase : String → String
  isAlphanumeric_ascii : ∀ c : Char, c.toNat < 128 → isAlphanumeric c = c.isAlphanum
  toLowercase_ascii : ∀ s : String, (∀ c ∈ s.toList, c.toNat < 128) → 
    toLowercase s = String.ofList (s.toList.map Char.toLower)

/-! ### Indexing -/

section Index
variable (U : Unicode)

def isWordChar (c : Char) : Bool := U.isAlphanumeric c || c = '_'

def tokenize (text : String) : List String :=
  (((text.toList.splitOnP (!isWordChar U ·)).map String.ofList).filter (2 ≤ ·.utf8ByteSize)).map U.toLowercase

def isStringType : DataType → Bool
  | .utf8 | .largeUtf8 => true
  | _ => false

/-- The values of a string column that are not null. -/
def extractStringValues (b : RecordBatch) (idx : Nat) : List String :=
  b.rows.filterMap fun (row : BatchRow) =>
    match (row[idx]?).join with
    | some (Value.text s) => some s
    | _ => none

def addFieldTokens (b : RecordBatch) (columnTokens : Dict String (List String)) (field : Field × Nat) :
    Dict String (List String) :=
  if isStringType field.1.dataType then
    let ftsKey := ftsColumnPrefix ++ field.1.name
    columnTokens.insert ftsKey
      ((columnTokens.lookup ftsKey).getD [] ∪ (extractStringValues b field.2).flatMap (tokenize U))
  else columnTokens

def addBatchTokens (columnTokens : Dict String (List String)) (b : RecordBatch) : Dict String (List String) :=
  b.schema.zipIdx.foldl (addFieldTokens U b) columnTokens

def extractTokenValues (batches : List RecordBatch) : Dict String (List String) :=
  (batches.foldl (addBatchTokens U) ∅).filter fun _ tokens => tokens ≠ []

end Index

/-! ### The predicate of a query -/

def extractColumnNameForSkip : {k : AstKind} → Ast k → Option (Option String × String)
  | _, .identifier ident => some (none, ident.value)
  | _, .compoundIdentifier idents =>
    match idents.reverse with
    | column :: qualifier :: _ => some (some qualifier.value, column.value)
    | [column] => some (none, column.value)
    | [] => none
  | _, .cast expr => extractColumnNameForSkip expr
  | _, _ => none

def tryExtractStringValue : {k : AstKind} → Ast k → Option String
  | _, .value (.singleQuotedString s) => some s
  | _, .value (.doubleQuotedString s) => some s
  | _, .value (.number n) => some n
  | _, .value (.boolean b) => some (if b then "true" else "false")
  | _, .cast expr => tryExtractStringValue expr
  | _, .unaryOp op expr => if op = "-" then (tryExtractStringValue expr).map ("-" ++ ·) else none
  | _, .nested inner => tryExtractStringValue inner
  | _, _ => none

def SkipPredicates.addToken (p : SkipPredicates) (column token : String) : SkipPredicates :=
  { p with tokenSearch := p.tokenSearch.insert column ((p.tokenSearch.lookup column).getD [] ++ [token]) }

def unnamedExpr : {k : AstKind} → Ast k → Option Expr
  | _, .unnamedArg expr => some expr
  | _, _ => none

/-- The arguments of a call, those that are unnamed expressions as such. -/
def argExprs : {k : AstKind} → Ast k → List (Option Expr)
  | _, .listArgs args _ => argExprs args
  | _, .cons arg args => unnamedExpr arg :: argExprs args
  | _, _ => []

/-- The `hasToken` arm, before the check that other predicates do not qualify the column in another way. -/
def extractHasToken (U : Unicode) (P : SqlParser) : Expr → Option ((Option String × String) × String)
  | .function name args _ _ _ =>
    if U.toLowercase (fullName P name) = "hastoken" then
      match argExprs args with
      | [some column, some token] =>
        (extractColumnNameForSkip column).bind fun col => (tryExtractStringValue token).map fun tok => (col, tok)
      | _ => none
    else none
  | _ => none

/-- The predicates of a query whose only condition is an expression. -/
def hasTokenPredicates (U : Unicode) (P : SqlParser) (expr : Expr) : SkipPredicates :=
  match extractHasToken U P expr with
  | some ((_, column), token) => SkipPredicates.addToken {} column token
  | none => {}

/-- `hasToken(col, 'q')`. -/
def hasTokenCall (col q : String) : Expr :=
  .function [{ value := "hasToken" }] (.listArgs (.cons (.unnamedArg (.identifier { value := col }))
    (.cons (.unnamedArg (.value (.singleQuotedString q))) .nil)) .nil) .none .none .nil

/-! ### Tokens of the query engine -/

/-- The characters of a token: ASCII letters and digits, and all that take more than one byte. -/
def isTokenChar (c : Char) : Bool := c.isAlphanum || 128 ≤ c.toNat

/-- `hasToken(text, q)`. -/
def hasToken (text q : String) : Bool := q ≠ "" && q.toList ∈ text.toList.splitOnP (!isTokenChar ·)

/-! ### What the index knows of a column -/

section Texts
variable {U : Unicode} {batches : List RecordBatch} {col tok : String}

/-- The texts of the string columns of a name. -/
def columnTexts (col : String) (batches : List RecordBatch) : List String :=
  batches.flatMap fun b => b.schema.zipIdx.flatMap fun field =>
    if isStringType field.1.dataType ∧ field.1.name = col then extractStringValues b field.2 else []

theorem mem_addFieldTokens {b : RecordBatch} {columnTokens : Dict String (List String)} {field : Field × Nat} :
    tok ∈ ((addFieldTokens U b columnTokens field).lookup (ftsColumnPrefix ++ col)).getD [] ↔
      tok ∈ (columnTokens.lookup (ftsColumnPrefix ++ col)).getD [] ∨
        ∃ text ∈ (if isStringType field.1.dataType ∧ field.1.name = col then extractStringValues b field.2 else []),
          tok ∈ tokenize U text := by
  unfold addFieldTokens
  split
  · next hstring =>
    rw [Dict.lookup_insert']
    by_cases hname : field.1.name = col
    · rw [if_pos (by rw [hname]), if_pos ⟨hstring, hname⟩, hname]
      simp
    · have hne : ftsColumnPrefix ++ col ≠ ftsColumnPrefix ++ field.1.name :=
        fun h => hname ((String.append_right_inj _).mp h).symm
      rw [if_neg hne, if_neg fun h => hname h.2]
      simp
  · next hstring =>
    rw [if_neg fun h => hstring h.1]
    simp

theorem mem_foldFields {b : RecordBatch} {fields : List (Field × Nat)} {columnTokens : Dict String (List String)} :
    tok ∈ ((fields.foldl (addFieldTokens U b) columnTokens).lookup (ftsColumnPrefix ++ col)).getD [] ↔
      tok ∈ (columnTokens.lookup (ftsColumnPrefix ++ col)).getD [] ∨
        ∃ text ∈ fields.flatMap fun field =>
          if isStringType field.1.dataType ∧ field.1.name = col then extractStringValues b field.2 else [],
          tok ∈ tokenize U text := by
  induction fields generalizing columnTokens with
  | nil => simp
  | cons field fields ih =>
    rw [List.foldl_cons, ih, mem_addFieldTokens, List.flatMap_cons, or_assoc]
    simp only [List.mem_append, or_and_right, exists_or]

theorem mem_foldBatches {columnTokens : Dict String (List String)} :
    tok ∈ ((batches.foldl (addBatchTokens U) columnTokens).lookup (ftsColumnPrefix ++ col)).getD [] ↔
      tok ∈ (columnTokens.lookup (ftsColumnPrefix ++ col)).getD [] ∨
        ∃ text ∈ columnTexts col batches, tok ∈ tokenize U text := by
  induction batches generalizing columnTokens with
  | nil => simp [columnTexts]
  | cons b batches ih =>
    rw [List.foldl_cons, ih, addBatchTokens, mem_foldFields, or_assoc]
    unfold columnTexts
    rw [List.flatMap_cons]
    simp only [List.mem_append, or_and_right, exists_or]

theorem lookup_extractTokenValues :
    ((extractTokenValues U batches).lookup (ftsColumnPrefix ++ col) = none ∧
        ∀ text ∈ columnTexts col batches, tokenize U text = []) ∨
      ∃ tokens, (extractTokenValues U batches).lookup (ftsColumnPrefix ++ col) = some tokens ∧ tokens ≠ [] ∧
        ∀ tok, tok ∈ tokens ↔ ∃ text ∈ columnTexts col batches, tok ∈ tokenize U text := by
  have hmem : ∀ tok, _ ↔ _ := fun tok => @mem_foldBatches U batches col tok ∅
  rw [extractTokenValues, Dict.lookup_filter]
  cases hlook : (batches.foldl (addBatchTokens U) ∅).lookup (ftsColumnPrefix ++ col) with
  | none =>
    simp only [hlook, AList.lookup_empty, Option.getD_none, List.not_mem_nil, false_or, false_iff] at hmem
    refine Or.inl ⟨rfl, fun text htext => List.eq_nil_iff_forall_not_mem.mpr fun tok htok => ?_⟩
    exact hmem tok ⟨text, htext, htok⟩
  | some tokens =>
    simp only [hlook, AList.lookup_empty, Option.getD_none, Option.getD_some, List.not_mem_nil, false_or] at hmem
    by_cases hnil : tokens = []
    · subst hnil
      refine Or.inl ⟨by simp, fun text htext => List.eq_nil_iff_forall_not_mem.mpr fun tok htok => ?_⟩
      exact List.not_mem_nil ((hmem tok).mpr ⟨text, htext, htok⟩)
    · exact Or.inr ⟨tokens, by simp [hnil], hnil, hmem⟩

end Texts

/-! ### Words and tokens -/

section Words
variable {U : Unicode} {text tok q : String}

def IsWord (U : Unicode) (w : List Char) (text : String) : Prop :=
  IsRun (isWordChar U) w text.toList ∧ 2 ≤ (String.ofList w).utf8ByteSize

theorem mem_tokenize : tok ∈ tokenize U text ↔ ∃ w, IsWord U w text ∧ U.toLowercase (String.ofList w) = tok := by
  simp only [tokenize, List.mem_map, List.mem_filter, IsWord, ← mem_splitOnP, decide_eq_true_eq]
  constructor
  · rintro ⟨_, ⟨⟨w, hw, rfl⟩, hsize⟩, rfl⟩
    exact ⟨w, ⟨hw, hsize⟩, rfl⟩
  · rintro ⟨w, ⟨hw, hsize⟩, rfl⟩
    exact ⟨_, ⟨⟨w, hw, rfl⟩, hsize⟩, rfl⟩

theorem tokenize_eq_nil : tokenize U text = [] ↔ ∀ w, ¬ IsWord U w text := by
  simp only [List.eq_nil_iff_forall_not_mem, mem_tokenize]
  exact ⟨fun h w hw => h _ ⟨w, hw, rfl⟩, fun h tok ⟨w, hw, _⟩ => h w hw⟩

theorem hasToken_iff : hasToken text q = true ↔ q ≠ "" ∧ IsRun isTokenChar q.toList text.toList := by
  rw [hasToken, Bool.and_eq_true, decide_eq_true_eq, decide_eq_true_eq, mem_splitOnP]

end Words

/-! ### Pruning -/

section Pruning
variable (U : Unicode) (P : SqlParser) (builds : String → Bool)

theorem hasTokenPredicates_call (col q : String) :
    hasTokenPredicates U P (hasTokenCall col q) = SkipPredicates.addToken {} col q := by
  have hlower : U.toLowercase (fullName P [{ value := "hasToken" }]) = "hastoken" := by
    show U.toLowercase "hasToken" = "hastoken"
    rw [U.toLowercase_ascii _ (by simp)]
    decide
  unfold hasTokenPredicates hasTokenCall extractHasToken
  dsimp only
  rw [if_pos hlower]
  rfl

theorem keptAlone_hasToken {col q : String} {f : FileSkipIndex} :
    KeptAlone builds (hasTokenPredicates U P (hasTokenCall col q)) f ↔
      mightContain f.columnValues (ftsColumnPrefix ++ col) q = true := by
  rw [hasTokenPredicates_call]
  simp [KeptAlone, SkipPredicates.addToken, SkipPredicates.admits, Dict.pairs]

/-- What the index must know for a token that some text has: a word that is the token once its case is lowered, or
    no word at all. -/
def WordFor (texts : List String) (q : String) : Prop :=
  (∃ text ∈ texts, ∃ w, IsWord U w text ∧ U.toLowercase (String.ofList w) = q) ∨
    ∀ text ∈ texts, ∀ w, ¬ IsWord U w text

theorem mightContain_tokens {batches : List RecordBatch} {path col q : String} :
    mightContain (FileSkipIndex.build path (extractTokenValues U batches)).columnValues (ftsColumnPrefix ++ col) q =
      true ↔ WordFor U (columnTexts col batches) q := by
  rw [mightContain, FileSkipIndex.build, Dict.lookup_ofPairs_map]
  rcases @lookup_extractTokenValues U batches col with ⟨hlook, hnone⟩ | ⟨tokens, hlook, hne, hmem⟩
  · rw [hlook]
    exact iff_of_true rfl (Or.inr fun text htext => tokenize_eq_nil.mp (hnone text htext))
  · have hword : ¬ ∀ text ∈ columnTexts col batches, ∀ w, ¬ IsWord U w text := by
      obtain ⟨tok, htok⟩ := List.exists_mem_of_ne_nil _ hne
      obtain ⟨text, htext, htok⟩ := (hmem tok).mp htok
      obtain ⟨w, hw, -⟩ := mem_tokenize.mp htok
      exact fun hnone => hnone text htext w hw
    rw [hlook, WordFor, or_iff_left hword]
    simp only [Option.map_some, decide_eq_true_eq, List.mem_toFinset, hmem, mem_tokenize]

/-- A file with the token is kept exactly if its texts have a word for the token. -/
theorem tokenPruning_iff (batches : List RecordBatch) (k path : String) (rows : Nat) (col q : String) :
    ((∃ text ∈ columnTexts col batches, hasToken text q = true) →
        path ∈ (build [⟨k, .build path (extractTokenValues U batches), rows⟩]).filterWithSkipPredicates builds
          (hasTokenPredicates U P (hasTokenCall col q)) none) ↔
      ((∃ text ∈ columnTexts col batches, q ≠ "" ∧ IsRun isTokenChar q.toList text.toList) →
        WordFor U (columnTexts col batches) q) := by
  have hkept : _ ↔ KeptAlone builds (hasTokenPredicates U P (hasTokenCall col q)) _ :=
    keptAlone_iff k (.build path (extractTokenValues U batches)) rows
  simp only [hasToken_iff]
  exact imp_congr_right fun _ => hkept.trans ((keptAlone_hasToken U P builds).trans (mightContain_tokens U))

end Pruning

/-! ### A text with a capital letter -/

def asciiUnicode : Unicode where
  isAlphanumeric := Char.isAlphanum
  toLowercase s := String.ofList (s.toList.map Char.toLower)
  isAlphanumeric_ascii _ _ := rfl
  toLowercase_ascii _ _ := rfl

def plainParser : SqlParser where
  parse _ := none
  print _ := ""
  quoted _ s := s

/-- One row, `Connection Error`. -/
def errorBatch : RecordBatch where
  schema := [{ name := "message", dataType := .utf8, nullable := true }]
  rows := [[some (.text "Connection Error")]]
  wf := by decide

/-- The index holds `error`, the query asks for `Error`. -/
theorem capitalToken_pruned :
    hasToken "Connection Error" "Error" = true ∧ "Connection Error" ∈ columnTexts "message" [errorBatch] ∧
      (build [⟨"date=2024-01-01", .build "a.parquet" (extractTokenValues asciiUnicode [errorBatch]),
        1⟩]).filterWithSkipPredicates (fun _ => true)
        (hasTokenPredicates asciiUnicode plainParser (hasTokenCall "message" "Error")) none = [] := by
  refine ⟨by decide, by decide, ?_⟩
  rw [hasTokenPredicates_call]
  decide

end Reiver.Pond
