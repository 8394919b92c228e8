import Reiver.Flow.Gateway.PromptVariables
import Reiver.Flow.Gateway.Types

/-! # A prompt version put on a request

The model of `extract_template_variables`, `apply_prompt_config` and `inject_system_prompt` of `prompt_resolver.rs`,
with the fields of a request that they read and write, and when the variables of a template meet their definitions. -/

namespace Reiver.Flow.Prompt

inductive ContentPart where
  | text (text : String)
  | imageUrl (url : String) (detail : Option String)
  | documentUrl (url : String) (mediaType filename : Option String)

inductive MessageContent where
  | text (text : String)
  | parts (parts : List ContentPart)

structure Message where
  role : MessageRole
  content : Option MessageContent := none
  name : Option String := none
  toolCalls : Option (List ToolCall) := none
  toolCallId : Option String := none
  reasoningContent : Option String := none

/-- A tool, by the name of its function and the rest of its definition. -/
structure Tool where
  name : String
  description : Option String := none
  parameters : Option JsonValue := none

inductive ResponseFormatType where
  | text
  | jsonObject
  | jsonSchema

/-- A request, its temperature as the bits of a single. -/
structure Request where
  model : String
  messages : List Message
  temperature : Option Nat := none
  maxTokens : Option Nat := none
  tools : Option (List Tool) := none
  toolChoice : Option String := none
  responseFormat : Option ResponseFormatType := none
  promptVariables : Option Vars := none

structure PromptVersionConfig where
  systemPrompt : Option String := none
  model : Option String := none
  temperature : ℚ
  maxTokens : Option Int := none
  variableDefinitions : JsonValue := .null
  tools : Option JsonValue := none
  responseFormat : Option JsonValue := none
  allowedTools : Option JsonValue := none

/-- The name of a header and the bytes of its value. -/
abbrev Headers := List (String × List UInt8)

/-- What reads the parts of a version and renders its template. -/
structure Templates extends Formats where
  compilePrompt : String → Vars → Except String String
  isBlank : String → Bool
  toF32 : ℚ → Option Nat
  readTools : JsonValue → Option (List Tool)
  readResponseFormat : JsonValue → Option ResponseFormatType

/-! ### Variables of a request -/

def maxHeaderValueLength : Nat := 255

/-- The text of the bytes, if all of them are visible or tabs. -/
def toStr (bytes : List UInt8) : Option String :=
  if bytes.all fun b => 32 ≤ b ∧ b < 127 ∨ b = 9 then some (String.ofList (bytes.map fun b => Char.ofNat b.toNat))
    else none

variable (templates : Templates)

def headerVariable (header : String × List UInt8) : Option (String × JsonValue) := do
  let rest ← (templates.lowercase header.1).dropPrefix? "x-reiver-var-"
  let value ← toStr header.2
  if header.2.length ≤ maxHeaderValueLength then
    some (rest.toString.map fun c => if c = '-' then '_' else c, (templates.parseJson value).getD (.string value))
  else none

def extractTemplateVariables (headers : Headers) : Vars :=
  (headers.filterMap (headerVariable templates)).foldl (fun vars e => vars.insert e.1 e.2) ∅

/-- The variables of the headers, and of the body where they have none. -/
def mergedVariables (request : Request) (headers : Headers) : Vars :=
  (request.promptVariables.getD ∅).pairs.foldl
    (fun vars e => if (vars.lookup e.1).isSome then vars else vars.insert e.1 e.2)
    (extractTemplateVariables templates headers)

/-! ### The request with the version -/

def injectSystemPrompt (request : Request) (systemPrompt : String) : Request :=
  match request.messages with
  | first :: rest =>
    if first.role = .system then
      let content := match first.content with
        | some (.text existing) => .text (systemPrompt ++ "\n\n" ++ existing)
        | some (.parts parts) => .parts (.text systemPrompt :: parts)
        | none => .text systemPrompt
      { request with messages := { first with content := some content } :: rest }
    else { request with messages := { role := .system, content := some (.text systemPrompt) } :: first :: rest }
  | [] => { request with messages := [{ role := .system, content := some (.text systemPrompt) }] }

def alreadyHasSystem (request : Request) : Bool :=
  match request.messages with
  | first :: _ => first.role = .system
  | [] => false

/-- The system prompt to put in, rendered if there are variables. -/
def compiledPrompt (request : Request) (config : PromptVersionConfig) (vars : Vars) : Except String (Option String) :=
  if alreadyHasSystem request then .ok none
  else
    match config.systemPrompt with
    | none => .ok none
    | some systemPrompt =>
      if vars.pairs ≠ [] then (templates.compilePrompt systemPrompt vars).map some else .ok (some systemPrompt)

def overrideModel (config : PromptVersionConfig) (request : Request) : Request :=
  match config.model with
  | some model => if templates.isBlank model then request else { request with model }
  | none => request

/-- Limits that are not positive are no limits. -/
def overrideMaxTokens (config : PromptVersionConfig) (request : Request) : Request :=
  match config.maxTokens with
  | some maxTokens => if 0 < maxTokens then { request with maxTokens := some maxTokens.toNat } else request
  | none => request

def applyTools (config : PromptVersionConfig) (request : Request) : Request :=
  match request.tools, config.tools.bind templates.readTools with
  | none, some tools => { request with tools := some tools }
  | _, _ => request

def restrictTools (config : PromptVersionConfig) (request : Request) : Request :=
  match config.allowedTools.bind readStrings with
  | some allowed =>
    let tools := request.tools.map (·.filter fun t => allowed.contains t.name)
    { request with
      tools
      toolChoice := if (tools.getD []).isEmpty then none else request.toolChoice }
  | none => request

def applyResponseFormat (config : PromptVersionConfig) (request : Request) : Request :=
  match request.responseFormat, config.responseFormat.bind templates.readResponseFormat with
  | none, some format => { request with responseFormat := some format }
  | _, _ => request

/-- The bits of `0.5` as a single. -/
def half : Nat := 0x3F000000

/-- The settings of the version, one after the other. -/
def applySettings (config : PromptVersionConfig) (request : Request) : Request :=
  let request := overrideModel templates config request
  let request := { request with temperature := some ((templates.toF32 config.temperature).getD half) }
  let request := overrideMaxTokens config request
  let request := restrictTools config (applyTools templates config request)
  applyResponseFormat templates config request

/-- The request after the call, and its answer. -/
def applyPromptConfig (request : Request) (config : PromptVersionConfig) (headers : Headers) :
    Request × Except GatewayError Unit :=
  match validatePromptVariables templates.toFormats config.variableDefinitions
    (mergedVariables templates request headers) with
  | .error (name, detail) => (request, .error (.promptVariableValidation name detail))
  | .ok vars =>
    match compiledPrompt templates request config vars with
    | .error e =>
      (request, .error (.promptVariableValidation "_template" ("Template compilation failed: " ++ e)))
    | .ok none => (applySettings templates config request, .ok ())
    | .ok (some prompt) => (applySettings templates config (injectSystemPrompt request prompt), .ok ())

/-! ### Variables that meet their definitions -/

/-- A definition of a list, be others of the list malformed or not. -/
def Defined (schema : JsonValue) (d : VariableDefinition) : Prop :=
  ∃ items, schema = .array items ∧ ∃ item ∈ items, readDefinition templates.toFormats item = some d

/-- Where a request is let through, every variable that reaches the template meets its definitions and no required one
is missing; where it is not, it stays as it was. -/
def VariablesMeet (request : Request) (config : PromptVersionConfig) (headers : Headers) : Prop :=
  ((applyPromptConfig templates request config headers).2 = .ok () →
    ∀ vars, validatePromptVariables templates.toFormats config.variableDefinitions
      (mergedVariables templates request headers) =
        .ok vars →
      ∀ d, Defined templates config.variableDefinitions d →
        (∀ val, vars.lookup d.name = some val → Meets templates.toFormats d val) ∧
          (d.required = true → (vars.lookup d.name).isSome)) ∧
    ∀ e, (applyPromptConfig templates request config headers).2 = .error e →
      (applyPromptConfig templates request config headers).1 = request

/-! ### When they do -/

section Condition
variable (request : Request) (config : PromptVersionConfig) (headers : Headers)

/-- What is wrong with the variables is found, or the template does not render with them. -/
def Refused : Prop :=
  let defs := definitions templates.toFormats config.variableDefinitions
  let vars := mergedVariables templates request headers
  (∃ d held, Reached defs vars d held ∧ ¬Accepted templates.toFormats held d) ∨
    ∃ e, compiledPrompt templates request config (withDefaults defs vars) = .error e

/-- A value of the request is one that the validator of its type looks at, and a default that is put in would pass
    it. -/
def LookedAt (d : VariableDefinition) (held final : Vars) : Prop :=
  match held.lookup d.name with
  | some val => Looked templates.toFormats d val
  | none => ∀ val, final.lookup d.name = some val → Passes templates.toFormats d val

def Needless (vars : Vars) (d : VariableDefinition) : Prop :=
  match vars.lookup d.name with
  | some val => Passes templates.toFormats d val
  | none => d.required = false

/-- The definitions can all be read and look at what they are reached with, or those that can be read need not have
looked at the request. -/
def Sound : Prop :=
  let defs := definitions templates.toFormats config.variableDefinitions
  let vars := mergedVariables templates request headers
  (∀ d held, Reached defs vars d held → LookedAt templates d held (withDefaults defs vars)) ∧
    (defs = [] → ∀ d, Defined templates config.variableDefinitions d → Needless templates vars d)

end Condition

section Conditions
variable {templates : Templates} {request : Request} {config : PromptVersionConfig} {headers : Headers} {vars : Vars}

theorem defined_iff {schema : JsonValue} (h : definitions templates.toFormats schema ≠ []) {d : VariableDefinition} :
    Defined templates schema d ↔ d ∈ definitions templates.toFormats schema := by
  cases schema with
  | array items =>
    cases hread : items.mapM (readDefinition templates.toFormats) with
    | none =>
      rw [definitions, hread] at h
      exact absurd rfl h
    | some defs =>
      rw [definitions, hread, Option.getD_some, mem_of_mapM_some hread]
      constructor
      · rintro ⟨_, hitems, hitem⟩
        cases hitems
        exact hitem
      · exact fun hitem => ⟨items, rfl, hitem⟩
  | _ => exact absurd rfl h

theorem validatePromptVariables_ok_iff {schema : JsonValue} {vars' : Vars} :
    validatePromptVariables templates.toFormats schema vars = .ok vars' ↔
      (∀ d held, Reached (definitions templates.toFormats schema) vars d held → Accepted templates.toFormats held d) ∧
        vars' = withDefaults (definitions templates.toFormats schema) vars := foldlM_ok_iff

theorem applyPromptConfig_error {e : GatewayError}
    (h : (applyPromptConfig templates request config headers).2 = .error e) :
    (applyPromptConfig templates request config headers).1 = request := by
  unfold applyPromptConfig at h ⊢
  split
  · rfl
  · next hvars =>
    rw [hvars] at h
    dsimp only at h ⊢
    split
    · rfl
    · next hprompt =>
      rw [hprompt] at h
      cases h
    · next hprompt =>
      rw [hprompt] at h
      cases h

theorem applyPromptConfig_ok_iff :
    (applyPromptConfig templates request config headers).2 = .ok () ↔ ¬Refused templates request config headers := by
  rw [Refused, not_or]
  unfold applyPromptConfig
  cases hvars : validatePromptVariables templates.toFormats config.variableDefinitions
      (mergedVariables templates request headers) with
  | error e =>
    refine iff_of_false (fun h => by cases h) fun h => ?_
    have haccepted : ∀ d held, Reached (definitions templates.toFormats config.variableDefinitions)
        (mergedVariables templates request headers) d held → Accepted templates.toFormats held d := by
      intro d held hreached
      by_contra hnot
      exact h.1 ⟨d, held, hreached, hnot⟩
    cases (validatePromptVariables_ok_iff.mpr ⟨haccepted, rfl⟩).symm.trans hvars
  | ok vars =>
    obtain ⟨haccepted, rfl⟩ := validatePromptVariables_ok_iff.mp hvars
    have hall : ¬∃ d held, Reached (definitions templates.toFormats config.variableDefinitions)
        (mergedVariables templates request headers) d held ∧ ¬Accepted templates.toFormats held d := by
      rintro ⟨d, held, hreached, hnot⟩
      exact hnot (haccepted d held hreached)
    rw [and_iff_right hall]
    dsimp only
    cases hprompt : compiledPrompt templates request config (withDefaults
        (definitions templates.toFormats config.variableDefinitions) (mergedVariables templates request headers)) with
    | error e => exact iff_of_false (fun h => by cases h) fun h => h ⟨e, rfl⟩
    | ok prompt =>
      refine iff_of_true ?_ ?_
      · cases prompt with
        | none => rfl
        | some text => rfl
      · rintro ⟨e, he⟩
        cases he

theorem meets_iff_lookedAt {defs : List VariableDefinition} {d : VariableDefinition} {held : Vars}
    (hreached : Reached defs vars d held) (haccepted : Accepted templates.toFormats held d) :
    (∀ val, (withDefaults defs vars).lookup d.name = some val → Meets templates.toFormats d val) ↔
      LookedAt templates d held (withDefaults defs vars) := by
  rw [LookedAt]
  cases hlook : held.lookup d.name with
  | none => exact forall₂_congr fun _ _ => meets_iff_passes
  | some val =>
    rw [Accepted, hlook] at haccepted
    change _ ↔ Looked templates.toFormats d val
    rw [← meets_iff_looked haccepted, lookup_of_reached hreached hlook]
    constructor
    · exact fun h => h val rfl
    · rintro h _ ⟨⟩
      exact h

theorem meets_iff_needless {d : VariableDefinition} :
    ((∀ val, vars.lookup d.name = some val → Meets templates.toFormats d val) ∧
      (d.required = true → (vars.lookup d.name).isSome)) ↔ Needless templates vars d := by
  rw [Needless]
  cases vars.lookup d.name with
  | none => simp
  | some val => simp [meets_iff_passes]

end Conditions

/-- Variables that reach a template meet their definitions exactly if the request is refused, or the validators look at
everything there is: every definition of the list can be read, texts and numbers are given where they are asked for, the
texts have nothing to escape or room for it, and defaults would pass themselves. -/
theorem variablesMeet_iff (request : Request) (config : PromptVersionConfig) (headers : Headers) :
    VariablesMeet templates request config headers ↔
      Refused templates request config headers ∨ Sound templates request config headers := by
  rw [VariablesMeet, and_iff_left fun e he => applyPromptConfig_error he, applyPromptConfig_ok_iff]
  by_cases hrefused : Refused templates request config headers
  · exact iff_of_true (fun h => absurd hrefused h) (Or.inl hrefused)
  rw [or_iff_right hrefused]
  have haccepted : ∀ d held, Reached (definitions templates.toFormats config.variableDefinitions)
      (mergedVariables templates request headers) d held → Accepted templates.toFormats held d := by
    intro d held hreached
    by_contra hnot
    exact hrefused (Or.inl ⟨d, held, hreached, hnot⟩)
  have hvars := validatePromptVariables_ok_iff.mpr ⟨haccepted, rfl⟩
  constructor
  · intro h
    have hall := h hrefused _ hvars
    refine ⟨fun d held hreached => ?_, fun hnil d hd => ?_⟩
    · have hne : definitions templates.toFormats config.variableDefinitions ≠ [] :=
        List.ne_nil_of_mem (mem_iff_reached.mpr ⟨held, hreached⟩)
      have hmem := (defined_iff hne).mpr (mem_iff_reached.mpr ⟨held, hreached⟩)
      exact (meets_iff_lookedAt hreached (haccepted d held hreached)).mp (hall d hmem).1
    · rw [hnil] at hall
      exact meets_iff_needless.mp (hall d hd)
  · rintro ⟨hlooked, hunread⟩ - vars hok d hd
    obtain ⟨-, rfl⟩ := validatePromptVariables_ok_iff.mp hok
    by_cases hnil : definitions templates.toFormats config.variableDefinitions = []
    · rw [hnil]
      exact meets_iff_needless.mpr (hunread hnil d hd)
    · obtain ⟨held, hreached⟩ := mem_iff_reached.mp ((defined_iff hnil).mp hd)
      exact ⟨(meets_iff_lookedAt hreached (haccepted d held hreached)).mpr (hlooked d held hreached),
        required_of_accepted hreached (haccepted d held hreached)⟩

/-- Decimal integers are the only JSON that is read, and templates are put as they are. -/
def decimalTemplates : Templates where
  parseJson s := s.toInt?.map .int
  printJson _ := ""
  lowercase := String.toLower
  doubleOfBits bits := bits
  parseDouble s := s.toInt?.map fun i => .num (((i : ℚ) : WithTop ℚ) : ExtRat)
  printDouble _ := ""
  render
    | .string s => htmlEscape s
    | .int i => toString i
    | _ => ""
  render_string _ := rfl
  compilePrompt template _ := .ok template
  isBlank s := s.isEmpty
  toF32 _ := none
  readTools _ := none
  readResponseFormat _ := none

def topicConfig : PromptVersionConfig where
  systemPrompt := some "About {{topic}}"
  temperature := 0
  variableDefinitions := .array [.object [("name", .string "topic"), ("type", .string "string"), ("max_chars", .int 3)]]

def topicRequest (topic : JsonValue) : Request where
  model := "gpt-4o"
  messages := []
  promptVariables := some (Dict.ofPairs [("topic", topic)])

/-- A number of five digits is let through where three characters are, and a text that takes six when it is escaped. -/
theorem not_variablesMeet : ¬VariablesMeet decimalTemplates (topicRequest (.int 12345)) topicConfig [] ∧
    ¬VariablesMeet decimalTemplates (topicRequest (.string "a<b")) topicConfig [] := by
  constructor
  · intro h
    have hmeets := (h.1 rfl _ rfl { name := "topic", maxChars := some 3 } ⟨_, rfl, _, List.mem_singleton_self _, rfl⟩).1
      (.int 12345) rfl
    exact absurd (hmeets.short rfl 3 rfl) (by decide)
  · intro h
    have hmeets := (h.1 rfl _ rfl { name := "topic", maxChars := some 3 } ⟨_, rfl, _, List.mem_singleton_self _, rfl⟩).1
      (.string "a<b") rfl
    exact absurd (hmeets.short rfl 3 rfl) (by decide)

end Reiver.Flow.Prompt
