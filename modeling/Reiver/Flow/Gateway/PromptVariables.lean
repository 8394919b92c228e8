import Reiver.Lib.Binary64
import Reiver.Lib.Dict
import Reiver.Lib.Fallible
import Reiver.Lib.JsonValue

/-! # Variables of a prompt

The model of `prompt_variable_def.rs` and of the validation of `prompt_resolver.rs`: what a validator lets through, and
what the variables are once defaults have been put in. -/

namespace Reiver.Flow.Prompt

/-! ### Texts in a template -/

/-- The characters that a template does not put as they are. -/
def escapes : List (Char × String) :=
  "<>\"&'`=".toList.zip ["&lt;", "&gt;", "&quot;", "&amp;", "&#x27;", "&#x60;", "&#x3D;"]

def escapeChar (c : Char) : List Char :=
  match escapes.find? (·.1 = c) with
  | some e => e.2.toList
  | none => [c]

/-- The escape function of a registry that sets none. -/
def htmlEscape (s : String) : String := String.ofList (s.toList.flatMap escapeChar)

def Plain (s : String) : Prop := ∀ c ∈ s.toList, escapes.find? (·.1 = c) = none

theorem htmlEscape_of_plain {s : String} (h : Plain s) : htmlEscape s = s := by
  have hchars : ∀ l : List Char, (∀ c ∈ l, escapes.find? (·.1 = c) = none) → l.flatMap escapeChar = l := by
    intro l
    induction l with
    | nil => exact fun _ => rfl
    | cons c l ih =>
      intro h
      obtain ⟨hc, hl⟩ := List.forall_mem_cons.mp h
      rw [List.flatMap_cons, ih hl, escapeChar, hc]
      rfl
  rw [htmlEscape, hchars _ h, String.ofList_toList]

theorem length_le_htmlEscape (s : String) : s.length ≤ (htmlEscape s).length := by
  have hnonempty : ∀ e ∈ escapes, 1 ≤ e.2.toList.length := by decide
  have hchar : ∀ c, 1 ≤ (escapeChar c).length := by
    intro c
    rw [escapeChar]
    split
    · next e he => exact hnonempty e (List.mem_of_find?_eq_some he)
    · exact Nat.le_refl _
  have hchars : ∀ l : List Char, l.length ≤ (l.flatMap escapeChar).length := by
    intro l
    induction l with
    | nil => exact Nat.le_refl _
    | cons c l ih =>
      have hc := hchar c
      rw [List.flatMap_cons, List.length_append, List.length_cons]
      omega
  rw [htmlEscape, String.length_ofList, ← String.length_toList]
  exact hchars _

/-! ### Values -/

/-- A double that a text was read as. -/
inductive Double where
  | nan
  | num (x : ExtRat)

/-- Texts, numbers and the values of a template, as the libraries read and print them. -/
structure Formats where
  parseJson : String → Option JsonValue
  printJson : JsonValue → String
  lowercase : String → String
  doubleOfBits : Nat → ℚ
  parseDouble : String → Option Double
  printDouble : ExtRat → String
  /-- What a template puts for a value. -/
  render : JsonValue → String
  render_string : ∀ s, render (.string s) = htmlEscape s

abbrev Vars := Dict String JsonValue

/-- The name of a variable and what is wrong with it. -/
abbrev VarError := String × String

structure VariableDefinition where
  name : String
  description : Option String := none
  varType : String := "string"
  required : Bool := false
  default : Option JsonValue := none
  values : Option (List String) := none
  maxChars : Option Nat := none
  min : Option ExtRat := none
  max : Option ExtRat := none

variable (formats : Formats)

/-! ### Definitions as JSON -/

/-- `as_f64` -/
def asF64 : JsonValue → Option ExtRat
  | .int i => some (toBinary64 i)
  | .double bits => some (((formats.doubleOfBits bits : ℚ) : WithTop ℚ) : ExtRat)
  | _ => none

/-- A field that may be left out or null, read otherwise. -/
def readOption {α : Type} (read : JsonValue → Option α) : Option JsonValue → Option (Option α)
  | none | some .null => some none
  | some json => (read json).map some

/-- A field that has a value of its own where it is left out. -/
def readDefault {α : Type} (read : JsonValue → Option α) (fallback : α) : Option JsonValue → Option α
  | none => some fallback
  | some json => read json

def readStrings (json : JsonValue) : Option (List String) := json.asArray.bind (·.mapM JsonValue.asStr)

/-- The fields of a definition, each under its name. -/
def readFields (field : String → Option JsonValue) : Option VariableDefinition := do
  let name ← (field "name").bind JsonValue.asStr
  let description ← readOption JsonValue.asStr (field "description")
  let varType ← readDefault JsonValue.asStr "string" (field "type")
  let required ← readDefault JsonValue.asBool false (field "required")
  let default ← readOption some (field "default")
  let values ← readOption readStrings (field "values")
  let maxChars ← readOption JsonValue.asU64 (field "max_chars")
  let min ← readOption (asF64 formats) (field "min")
  let max ← readOption (asF64 formats) (field "max")
  return { name, description, varType, required, default, values, maxChars, min, max }

/-- The fields in the order in which an array gives them. -/
def fieldNames : List String :=
  ["name", "description", "type", "required", "default", "values", "max_chars", "min", "max"]

/-- A definition is an object, whose type may stand under another name, or an array of its fields. -/
def readDefinition : JsonValue → Option VariableDefinition
  | .object members =>
    match members.lookup "type", members.lookup "var_type" with
    | some _, some _ => none
    | none, some varType => readFields formats fun name => if name = "type" then some varType else members.lookup name
    | _, none => readFields formats fun name => members.lookup name
  | .array items =>
    if items.length ≤ fieldNames.length then readFields formats fun name => (fieldNames.zip items).lookup name else none
  | _ => none

/-! ### Validation -/

def textOf (val : JsonValue) : String := val.asStr.getD (formats.printJson val)

def validateEnumVar (name : String) (val : JsonValue) (allowed : List String) : Except VarError Unit :=
  let lower := formats.lowercase (textOf formats val)
  if allowed.any fun a => formats.lowercase a = lower then .ok ()
  else
    .error (name, "value '" ++ textOf formats val ++ "' is not one of the allowed values: " ++ ", ".intercalate allowed)

def validateStringVar (name : String) (val : JsonValue) (maxChars : Nat) : Except VarError Unit :=
  match val with
  | .string s =>
    if s.length > maxChars then
      .error (name, "string length " ++ toString s.length ++ " exceeds the maximum of " ++ toString maxChars ++
        " characters")
    else .ok ()
  | _ => .ok ()

/-- The number that a value is, or that its text is read as. -/
def numberOf : JsonValue → Option Double
  | .string s => formats.parseDouble s
  | val => (asF64 formats val).map .num

def validateNumberVar (name : String) (val : JsonValue) (min max : Option ExtRat) : Except VarError Unit :=
  match numberOf formats val with
  | none => .ok ()
  | some .nan => .error (name, "value is not a finite number: " ++ formats.printJson val)
  | some (.num n) =>
    if n = ⊤ ∨ n = ⊥ then .error (name, "value is not a finite number: " ++ formats.printJson val)
    else if min.any (n < ·) then
      .error (name, "value " ++ formats.printDouble n ++ " is below the minimum of " ++
        formats.printDouble (min.getD n))
    else if max.any (· < n) then
      .error (name, "value " ++ formats.printDouble n ++ " exceeds the maximum of " ++ formats.printDouble (max.getD n))
    else .ok ()

/-- A value that is there, checked as its type asks. -/
def validateValue (d : VariableDefinition) (val : JsonValue) : Except VarError Unit :=
  if d.varType = "enum" then
    match d.values with
    | some allowed => validateEnumVar formats d.name val allowed
    | none => .ok ()
  else if d.varType = "string" then
    match d.maxChars with
    | some maxChars => validateStringVar d.name val maxChars
    | none => .ok ()
  else if d.varType = "number" then validateNumberVar formats d.name val d.min d.max
  else .ok ()

def validateVar (vars : Vars) (d : VariableDefinition) : Except VarError Vars :=
  match vars.lookup d.name with
  | none =>
    match d.default with
    | some val => .ok (vars.insert d.name val)
    | none => if d.required then .error (d.name, "required variable is missing and has no default") else .ok vars
  | some val => (validateValue formats d val).map fun _ => vars

/-- The definitions of a version; a list with one that is malformed has none. -/
def definitions : JsonValue → List VariableDefinition
  | .array items => (items.mapM (readDefinition formats)).getD []
  | _ => []

def validatePromptVariables (schema : JsonValue) (vars : Vars) : Except VarError Vars :=
  (definitions formats schema).foldlM (validateVar formats) vars

/-! ### What is let through -/

/-- A value meets a definition: one of the values but for the case of letters, at most so many characters where it
stands in a template, a finite number between the bounds. -/
structure Meets (d : VariableDefinition) (val : JsonValue) : Prop where
  oneOf : d.varType = "enum" → ∀ allowed ∈ d.values, ∃ a ∈ allowed,
    formats.lowercase a = formats.lowercase (textOf formats val)
  short : d.varType = "string" → ∀ maxChars ∈ d.maxChars, (formats.render val).length ≤ maxChars
  bounded : d.varType = "number" → ∃ n : ℚ, numberOf formats val = some (.num ((n : WithTop ℚ) : ExtRat)) ∧
    (∀ lo ∈ d.min, lo ≤ ((n : WithTop ℚ) : ExtRat)) ∧ ∀ hi ∈ d.max, ((n : WithTop ℚ) : ExtRat) ≤ hi

/-- The validators look at a value of this kind: where its length counts, a text that the template puts as it is; a
number or the text of one. Another value may be short in the template by itself. -/
structure Looked (d : VariableDefinition) (val : JsonValue) : Prop where
  text : d.varType = "string" → ∀ maxChars ∈ d.maxChars,
    (∃ s, val = .string s ∧ Plain s) ∨ (formats.render val).length ≤ maxChars
  number : d.varType = "number" → (numberOf formats val).isSome

/-- The validator of the type finds nothing wrong, and it has looked. -/
def Passes (d : VariableDefinition) (val : JsonValue) : Prop :=
  validateValue formats d val = .ok () ∧ Looked formats d val

/-- The variables are let through at a definition. -/
def Accepted (vars : Vars) (d : VariableDefinition) : Prop :=
  match vars.lookup d.name with
  | some val => validateValue formats d val = .ok ()
  | none => d.required = true → d.default ≠ none

/-- The default of a definition, where there is no value. -/
def fillDefault (vars : Vars) (d : VariableDefinition) : Vars :=
  match vars.lookup d.name, d.default with
  | none, some val => vars.insert d.name val
  | _, _ => vars

def withDefaults (defs : List VariableDefinition) (vars : Vars) : Vars := defs.foldl fillDefault vars

/-- A definition of the list, with the variables as they are when it is reached. -/
def Reached (defs : List VariableDefinition) (vars : Vars) (d : VariableDefinition) (held : Vars) : Prop :=
  ∃ before after, defs = before ++ d :: after ∧ held = withDefaults before vars

section Values
variable {formats : Formats} {d : VariableDefinition} {val : JsonValue}

theorem validateEnumVar_ok_iff {name : String} {allowed : List String} :
    validateEnumVar formats name val allowed = .ok () ↔
      ∃ a ∈ allowed, formats.lowercase a = formats.lowercase (textOf formats val) := by
  rw [validateEnumVar]
  split
  · next h => simpa using h
  · next h => simpa using h

theorem validateStringVar_ok_iff {name : String} {maxChars : Nat} :
    validateStringVar name val maxChars = .ok () ↔ ∀ s, val = .string s → s.length ≤ maxChars := by
  cases val with
  | string s =>
    rw [validateStringVar]
    split
    · next h => simpa using h
    · next h => simpa using h
  | _ => simp [validateStringVar]

theorem finite_of_ne {n : ExtRat} (h : ¬(n = ⊤ ∨ n = ⊥)) : ∃ q : ℚ, n = ((q : WithTop ℚ) : ExtRat) := by
  rw [not_or] at h
  obtain ⟨x, rfl⟩ := WithBot.ne_bot_iff_exists.mp h.2
  obtain ⟨q, rfl⟩ := WithTop.ne_top_iff_exists.mp fun hx : x = ⊤ => h.1 (by rw [hx]; rfl)
  exact ⟨q, rfl⟩

theorem coe_ne (q : ℚ) : ¬(((q : WithTop ℚ) : ExtRat) = ⊤ ∨ ((q : WithTop ℚ) : ExtRat) = ⊥) := by
  rintro (h | h)
  · exact WithTop.coe_ne_top (WithBot.coe_injective h)
  · exact WithBot.coe_ne_bot h

theorem forall_mem_iff_any {bound : Option ExtRat} {p : ExtRat → Bool} {q : ExtRat → Prop}
    (h : ∀ x, q x ↔ p x = false) :
    (∀ x ∈ bound, q x) ↔ ¬bound.any p = true := by
  cases bound with
  | none => simp
  | some x => simp [h]

theorem validateNumberVar_ok_iff {name : String} {min max : Option ExtRat} :
    validateNumberVar formats name val min max = .ok () ↔
      ∀ x, numberOf formats val = some x → ∃ n : ℚ, x = .num ((n : WithTop ℚ) : ExtRat) ∧
        (∀ lo ∈ min, lo ≤ ((n : WithTop ℚ) : ExtRat)) ∧ ∀ hi ∈ max, ((n : WithTop ℚ) : ExtRat) ≤ hi := by
  rw [validateNumberVar]
  cases hnumber : numberOf formats val with
  | none => simp
  | some x =>
    cases x with
    | nan => simp
    | num n =>
      by_cases hfinite : n = ⊤ ∨ n = ⊥
      · refine iff_of_false (by simp [hfinite]) fun h => ?_
        obtain ⟨q, hq, -⟩ := h _ rfl
        rw [Double.num.injEq] at hq
        exact coe_ne q (hq ▸ hfinite)
      · obtain ⟨q, rfl⟩ := finite_of_ne hfinite
        have hinside : (∀ x, some (Double.num ((q : WithTop ℚ) : ExtRat)) = some x →
            ∃ n : ℚ, x = .num ((n : WithTop ℚ) : ExtRat) ∧ (∀ lo ∈ min, lo ≤ ((n : WithTop ℚ) : ExtRat)) ∧
              ∀ hi ∈ max, ((n : WithTop ℚ) : ExtRat) ≤ hi) ↔
            (∀ lo ∈ min, lo ≤ ((q : WithTop ℚ) : ExtRat)) ∧ ∀ hi ∈ max, ((q : WithTop ℚ) : ExtRat) ≤ hi := by
          simp
        rw [hinside, forall_mem_iff_any (p := fun lo => decide (((q : WithTop ℚ) : ExtRat) < lo)) (by simp),
          forall_mem_iff_any (p := fun hi => decide (hi < ((q : WithTop ℚ) : ExtRat))) (by simp)]
        simp only [if_neg hfinite]
        split
        · next hlo => exact iff_of_false (fun h => by cases h) fun h => h.1 hlo
        · next hlo =>
          split
          · next hhi => exact iff_of_false (fun h => by cases h) fun h => h.2 hhi
          · next hhi => exact iff_of_true rfl ⟨hlo, hhi⟩

theorem meets_iff_looked (h : validateValue formats d val = .ok ()) : Meets formats d val ↔ Looked formats d val := by
  constructor
  · intro hmeets
    refine ⟨fun htype maxChars hmax => Or.inr (hmeets.short htype maxChars hmax), fun htype => ?_⟩
    obtain ⟨n, hn, -⟩ := hmeets.bounded htype
    rw [hn, Option.isSome_some]
  · intro hlooked
    refine ⟨fun htype allowed hallowed => ?_, fun htype maxChars hmax => ?_, fun htype => ?_⟩
    · rw [validateValue, if_pos htype, hallowed] at h
      exact validateEnumVar_ok_iff.mp h
    · rw [validateValue, if_neg (by rw [htype]; decide), if_pos htype, hmax] at h
      rcases hlooked.text htype maxChars hmax with ⟨s, rfl, hplain⟩ | hshort
      · rw [formats.render_string, htmlEscape_of_plain hplain]
        exact validateStringVar_ok_iff.mp h s rfl
      · exact hshort
    · rw [validateValue, if_neg (by rw [htype]; decide), if_neg (by rw [htype]; decide), if_pos htype] at h
      obtain ⟨x, hx⟩ := Option.isSome_iff_exists.mp (hlooked.number htype)
      obtain ⟨n, rfl, hbounds⟩ := validateNumberVar_ok_iff.mp h x hx
      exact ⟨n, hx, hbounds⟩

theorem validateValue_of_meets (h : Meets formats d val) : validateValue formats d val = .ok () := by
  unfold validateValue
  split
  · next htype =>
    cases hvalues : d.values with
    | none => rfl
    | some allowed => exact validateEnumVar_ok_iff.mpr (h.oneOf htype allowed hvalues)
  · split
    · next htype =>
      cases hmax : d.maxChars with
      | none => rfl
      | some maxChars =>
        refine validateStringVar_ok_iff.mpr fun s hs => ?_
        have hshort := h.short htype maxChars hmax
        rw [hs, formats.render_string] at hshort
        exact (length_le_htmlEscape s).trans hshort
    · split
      · next htype =>
        obtain ⟨n, hn, hbounds⟩ := h.bounded htype
        refine validateNumberVar_ok_iff.mpr fun x hx => ⟨n, ?_, hbounds⟩
        exact Option.some_inj.mp (hx.symm.trans hn)
      · rfl

theorem meets_iff_passes : Meets formats d val ↔ Passes formats d val := by
  constructor
  · exact fun h => ⟨validateValue_of_meets h, (meets_iff_looked (validateValue_of_meets h)).mp h⟩
  · exact fun h => (meets_iff_looked h.1).mpr h.2

end Values

/-! ### A run of definitions -/

section Run
variable {formats : Formats} {defs : List VariableDefinition} {vars held : Vars} {d : VariableDefinition}
  {val : JsonValue}

theorem fillDefault_of_some (h : vars.lookup d.name = some val) : fillDefault vars d = vars := by
  rw [fillDefault, h]

theorem fillDefault_of_none (h : vars.lookup d.name = none) (hdefault : d.default = none) :
    fillDefault vars d = vars := by
  rw [fillDefault, h, hdefault]

theorem fillDefault_insert (h : vars.lookup d.name = none) (hdefault : d.default = some val) :
    fillDefault vars d = vars.insert d.name val := by
  rw [fillDefault, h, hdefault]

theorem validateVar_ok_iff {vars' : Vars} :
    validateVar formats vars d = .ok vars' ↔ Accepted formats vars d ∧ vars' = fillDefault vars d := by
  cases hlook : vars.lookup d.name with
  | some val =>
    rw [validateVar, Accepted, hlook, fillDefault_of_some hlook]
    change (validateValue formats d val).map (fun _ => vars) = .ok vars' ↔ validateValue formats d val = .ok () ∧ _
    cases validateValue formats d val with
    | error e => exact iff_of_false (fun h => by cases h) fun h => by cases h.1
    | ok u =>
      rw [Except.map, Except.ok.injEq, and_iff_right rfl]
      exact eq_comm
  | none =>
    cases hdefault : d.default with
    | some val =>
      rw [validateVar, Accepted, hlook, hdefault, fillDefault_insert hlook hdefault]
      change Except.ok (vars.insert d.name val) = .ok vars' ↔ (d.required = true → some val ≠ none) ∧ _
      rw [Except.ok.injEq, and_iff_right fun _ => Option.some_ne_none val]
      exact eq_comm
    | none =>
      rw [validateVar, Accepted, hlook, hdefault, fillDefault_of_none hlook hdefault]
      by_cases hrequired : d.required = true
      · simp [hrequired]
      · change (if d.required = true then _ else Except.ok vars) = .ok vars' ↔ (d.required = true → _) ∧ _
        rw [if_neg hrequired, Except.ok.injEq, and_iff_right fun h => absurd h hrequired]
        exact eq_comm

theorem reached_nil : ¬Reached [] vars d held := by
  rintro ⟨before, after, h, -⟩
  cases before <;> cases h

theorem reached_cons {e : VariableDefinition} :
    Reached (d :: defs) vars e held ↔ (e = d ∧ held = vars) ∨ Reached defs (fillDefault vars d) e held := by
  constructor
  · rintro ⟨before, after, h, hheld⟩
    cases before with
    | nil =>
      cases h
      exact Or.inl ⟨rfl, hheld⟩
    | cons first before =>
      cases h
      exact Or.inr ⟨before, after, rfl, hheld⟩
  · rintro (⟨rfl, rfl⟩ | ⟨before, after, rfl, rfl⟩)
    · exact ⟨[], defs, rfl, rfl⟩
    · exact ⟨d :: before, after, rfl, rfl⟩

theorem foldlM_ok_iff {vars' : Vars} :
    defs.foldlM (validateVar formats) vars = .ok vars' ↔
      (∀ d held, Reached defs vars d held → Accepted formats held d) ∧ vars' = withDefaults defs vars := by
  induction defs generalizing vars with
  | nil =>
    have hnone : ∀ d held, Reached [] vars d held → Accepted formats held d := fun _ _ h => absurd h reached_nil
    rw [List.foldlM_nil, and_iff_right hnone]
    change Except.ok vars = Except.ok vars' ↔ vars' = vars
    rw [Except.ok.injEq, eq_comm]
  | cons d defs ih =>
    rw [List.foldlM_cons]
    have hsplit : (∀ e held, Reached (d :: defs) vars e held → Accepted formats held e) ↔
        Accepted formats vars d ∧ ∀ e held, Reached defs (fillDefault vars d) e held → Accepted formats held e := by
      simp only [reached_cons]
      constructor
      · exact fun h => ⟨h d vars (Or.inl ⟨rfl, rfl⟩), fun e held hreached => h e held (Or.inr hreached)⟩
      · rintro ⟨hfirst, hrest⟩ e held (⟨rfl, rfl⟩ | hreached)
        · exact hfirst
        · exact hrest e held hreached
    rw [hsplit]
    by_cases haccepted : Accepted formats vars d
    · rw [validateVar_ok_iff.mpr ⟨haccepted, rfl⟩, and_iff_right haccepted]
      exact ih
    · refine iff_of_false (fun h => ?_) fun h => haccepted h.1.1
      cases hstep : validateVar formats vars d with
      | error e =>
        rw [hstep] at h
        cases h
      | ok vars' => exact haccepted (validateVar_ok_iff.mp hstep).1

theorem lookup_fillDefault {name : String} (h : vars.lookup name = some val) :
    (fillDefault vars d).lookup name = some val := by
  cases hlook : vars.lookup d.name with
  | some other => rw [fillDefault_of_some hlook, h]
  | none =>
    cases hdefault : d.default with
    | none => rw [fillDefault_of_none hlook hdefault, h]
    | some default =>
      have hne : name ≠ d.name := by
        rintro rfl
        cases hlook.symm.trans h
      rw [fillDefault_insert hlook hdefault, AList.lookup_insert_ne hne, h]

theorem lookup_withDefaults {name : String} (h : vars.lookup name = some val) :
    (withDefaults defs vars).lookup name = some val := by
  induction defs generalizing vars with
  | nil => exact h
  | cons d defs ih => exact ih (lookup_fillDefault h)

theorem withDefaults_of_reached (h : Reached defs vars d held) :
    ∃ after, withDefaults defs vars = withDefaults after (fillDefault held d) := by
  obtain ⟨before, after, rfl, rfl⟩ := h
  refine ⟨after, ?_⟩
  rw [withDefaults, List.foldl_append, List.foldl_cons]
  rfl

theorem lookup_of_reached (h : Reached defs vars d held) (hval : held.lookup d.name = some val) :
    (withDefaults defs vars).lookup d.name = some val := by
  obtain ⟨after, hafter⟩ := withDefaults_of_reached h
  rw [hafter]
  exact lookup_withDefaults (lookup_fillDefault hval)

theorem required_of_accepted (h : Reached defs vars d held) (haccepted : Accepted formats held d)
    (hrequired : d.required = true) : ((withDefaults defs vars).lookup d.name).isSome := by
  cases hlook : held.lookup d.name with
  | some val => rw [lookup_of_reached h hlook, Option.isSome_some]
  | none =>
    rw [Accepted, hlook] at haccepted
    obtain ⟨default, hdefault⟩ := Option.ne_none_iff_exists'.mp (haccepted hrequired)
    obtain ⟨after, hafter⟩ := withDefaults_of_reached h
    have hfilled : (fillDefault held d).lookup d.name = some default := by
      rw [fillDefault_insert hlook hdefault, AList.lookup_insert]
    rw [hafter, lookup_withDefaults hfilled, Option.isSome_some]

theorem mem_iff_reached : d ∈ defs ↔ ∃ held, Reached defs vars d held := by
  rw [List.mem_iff_append]
  constructor
  · rintro ⟨before, after, h⟩
    exact ⟨_, before, after, h, rfl⟩
  · rintro ⟨_, before, after, h, -⟩
    exact ⟨before, after, h⟩

end Run

end Reiver.Flow.Prompt
