import Mathlib.Data.List.Infix
import Reiver.Flow.Gateway.Types

/-! # Output guardrails

The model of the output checks of `guardrails.rs` and of `apply_output_guardrails` of `response.rs`: personal data is
masked first, and what is masked is checked. The checks are skipped when the project has no guardrail of its own, also
for the tool list of a prompt. -/

namespace Reiver.Flow

structure TextFilters where
  toLowercase : String → String
  redactIfChanged : String → Option String
  detectExfiltrationInText : String → Option String

inductive TrustMode where
  | agent
  | chatbot
deriving DecidableEq

structure GuardrailConfig where
  trustMode : Option TrustMode := none
  blockedInputTopics : List String := []
  maxPromptTokens : Option Nat := none
  piiBlockOnDetect : Bool := false
  promptInjectionDetection : Bool := false
  spotlightingEnabled : Bool := false
  maskOutputPii : Bool := false
  blockedOutputTopics : List String := []
  minQualityScore : Option String := none
  blockedTools : List String := []
  blockExfiltrationUrls : Bool := false
deriving DecidableEq

def GuardrailConfig.isNoop (config : GuardrailConfig) : Bool :=
  config.trustMode.isNone
    && config.blockedInputTopics.isEmpty
    && config.maxPromptTokens.isNone
    && !config.piiBlockOnDetect
    && !config.promptInjectionDetection
    && !config.spotlightingEnabled
    && !config.maskOutputPii
    && config.blockedOutputTopics.isEmpty
    && config.minQualityScore.isNone
    && config.blockedTools.isEmpty
    && !config.blockExfiltrationUrls

/-- What is in force for a request: the guardrails of its project and the tool list of its prompt. -/
structure OutputPolicy where
  guardrailConfig : GuardrailConfig := {}
  allowedTools : Option (List String) := none
deriving DecidableEq

structure GuardrailViolation where
  rule : GuardrailRule
  detail : String
deriving DecidableEq

inductive OutputGuardrailCheck where
  | pass
  | block (violation : GuardrailViolation)
deriving DecidableEq

/-! ### The texts of a response -/

namespace ChatCompletionResponse

def responseText (response : ChatCompletionResponse) : String :=
  "\n".intercalate (response.choices.filterMap (·.content))

def thinkingText (response : ChatCompletionResponse) : Option String :=
  match response.choices.filterMap (·.thinking) with
  | [] => none
  | texts => some ("\n".intercalate texts)

def toolCallNames (response : ChatCompletionResponse) : List String :=
  response.choices.flatMap fun choice => (choice.toolCalls.getD []).map (·.name)

end ChatCompletionResponse

namespace TextFilters
variable (F : TextFilters)

def maskText (text : String) : String := (F.redactIfChanged text).getD text

def maskMessage (message : AssistantMessage) : AssistantMessage :=
  { message with content := message.content.map F.maskText, thinking := message.thinking.map F.maskText }

def maskResponse (response : ChatCompletionResponse) : ChatCompletionResponse :=
  { response with choices := response.choices.map F.maskMessage }

def Mentions (text topic : String) : Prop := (F.toLowercase topic).toList <:+: (F.toLowercase text).toList

instance (text topic : String) : Decidable (F.Mentions text topic) :=
  inferInstanceAs (Decidable ((F.toLowercase topic).toList <:+: (F.toLowercase text).toList))

def findBlockedTopic (text : String) (topics : List String) : Option String :=
  topics.find? fun topic => F.Mentions text topic

end TextFilters

/-! ### The checks -/

section Checks
variable (F : TextFilters)

def topicViolation (config : GuardrailConfig) (responseText : String) (thinkingText : Option String) :
    Option GuardrailViolation :=
  match F.findBlockedTopic responseText config.blockedOutputTopics with
  | some matched => some ⟨.blockedOutputTopic, "Response contains a blocked topic: \"" ++ matched ++ "\"."⟩
  | none =>
    match thinkingText.bind fun thinking => F.findBlockedTopic thinking config.blockedOutputTopics with
    | some matched => some ⟨.blockedOutputTopic, "Response reasoning contains a blocked topic: \"" ++ matched ++ "\"."⟩
    | none => none

def allowedToolViolation (allowedTools : Option (List String)) (toolCallNames : List String) :
    Option GuardrailViolation :=
  match allowedTools with
  | none => none
  | some allowed =>
    match toolCallNames.find? (· ∉ allowed) with
    | some name =>
      some ⟨.toolCallBlocked, "Tool call \"" ++ name ++ "\" is not in the allowed tools list for this prompt."⟩
    | none => none

def blockedToolViolation (config : GuardrailConfig) (toolCallNames : List String) : Option GuardrailViolation :=
  match toolCallNames.find? (F.toLowercase · ∈ config.blockedTools.map F.toLowercase) with
  | some name =>
    some ⟨.toolCallBlocked, "Tool call \"" ++ name ++ "\" is blocked by the project's guardrail policy."⟩
  | none => none

def exfiltrationViolation (config : GuardrailConfig) (responseText : String) (thinkingText : Option String) :
    Option GuardrailViolation :=
  if config.blockExfiltrationUrls then
    match F.detectExfiltrationInText responseText with
    | some detail => some ⟨.exfiltrationBlocked, detail⟩
    | none => (thinkingText.bind F.detectExfiltrationInText).map (⟨.exfiltrationBlocked, ·⟩)
  else none

def checkOutputGuardrails (config : GuardrailConfig) (responseText : String) (thinkingText : Option String)
    (toolCallNames : List String) (allowedTools : Option (List String)) : OutputGuardrailCheck :=
  match topicViolation F config responseText thinkingText with
  | some violation => .block violation
  | none =>
    match allowedToolViolation allowedTools toolCallNames with
    | some violation => .block violation
    | none =>
      match blockedToolViolation F config toolCallNames with
      | some violation => .block violation
      | none =>
        match exfiltrationViolation F config responseText thinkingText with
        | some violation => .block violation
        | none => .pass

def maskOutput (config : GuardrailConfig) (response : ChatCompletionResponse) : ChatCompletionResponse :=
  if config.maskOutputPii then F.maskResponse response else response

def applyOutputGuardrails (policy : OutputPolicy) (result : Except GatewayError ChatCompletionResponse) :
    Except GatewayError ChatCompletionResponse :=
  if policy.guardrailConfig.isNoop then result
  else
    match result with
    | .error error => .error error
    | .ok answer =>
      let response := maskOutput F policy.guardrailConfig answer
      match checkOutputGuardrails F policy.guardrailConfig response.responseText response.thinkingText
        response.toolCallNames policy.allowedTools with
      | .block violation => .error (.guardrailViolation violation.rule violation.detail)
      | .pass => .ok response

end Checks

/-! ### What the checks establish -/

/-- No check of the policy has anything against the response. -/
structure Passes (F : TextFilters) (policy : OutputPolicy) (response : ChatCompletionResponse) : Prop where
  topics : ∀ topic ∈ policy.guardrailConfig.blockedOutputTopics,
    ¬F.Mentions response.responseText topic ∧ ∀ thinking ∈ response.thinkingText, ¬F.Mentions thinking topic
  allowed : ∀ allowed ∈ policy.allowedTools, ∀ name ∈ response.toolCallNames, name ∈ allowed
  notBlocked : ∀ blocked ∈ policy.guardrailConfig.blockedTools, ∀ name ∈ response.toolCallNames,
    F.toLowercase blocked ≠ F.toLowercase name
  exfiltration : policy.guardrailConfig.blockExfiltrationUrls = true →
    F.detectExfiltrationInText response.responseText = none ∧
      ∀ thinking ∈ response.thinkingText, F.detectExfiltrationInText thinking = none

/-- The response is one that the policy in force lets through: masked if masking is on, and without a finding. -/
structure Policed (F : TextFilters) (policy : OutputPolicy) (response : ChatCompletionResponse) : Prop
    extends Passes F policy response where
  masked : policy.guardrailConfig.maskOutputPii = true → ∃ answer, response = F.maskResponse answer

section Established
variable {F : TextFilters} {policy : OutputPolicy} {config : GuardrailConfig} {answer response : ChatCompletionResponse}

theorem findBlockedTopic_eq_none {text : String} {topics : List String} :
    F.findBlockedTopic text topics = none ↔ ∀ topic ∈ topics, ¬F.Mentions text topic := by
  simp [TextFilters.findBlockedTopic]

theorem topicViolation_eq_none {responseText : String} {thinkingText : Option String} :
    topicViolation F config responseText thinkingText = none ↔ ∀ topic ∈ config.blockedOutputTopics,
      ¬F.Mentions responseText topic ∧ ∀ thinking ∈ thinkingText, ¬F.Mentions thinking topic := by
  rw [topicViolation]
  constructor
  · intro h topic htopic
    split at h
    · cases h
    · next hresponse =>
      split at h
      · cases h
      · next hthinking =>
        refine ⟨findBlockedTopic_eq_none.mp hresponse topic htopic, fun thinking hmem => ?_⟩
        exact findBlockedTopic_eq_none.mp (Option.bind_eq_none_iff.mp hthinking thinking hmem) topic htopic
  · intro h
    rw [findBlockedTopic_eq_none.mpr fun topic htopic => (h topic htopic).1]
    have hthinking : (thinkingText.bind fun thinking => F.findBlockedTopic thinking config.blockedOutputTopics) =
        none :=
      Option.bind_eq_none_iff.mpr fun thinking hmem =>
        findBlockedTopic_eq_none.mpr fun topic htopic => (h topic htopic).2 thinking hmem
    rw [hthinking]

theorem allowedToolViolation_eq_none {allowedTools : Option (List String)} {names : List String} :
    allowedToolViolation allowedTools names = none ↔ ∀ allowed ∈ allowedTools, ∀ name ∈ names, name ∈ allowed := by
  cases allowedTools with
  | none => simp [allowedToolViolation]
  | some allowed =>
    rw [allowedToolViolation]
    cases hfind : names.find? (· ∉ allowed) with
    | none => simpa using hfind
    | some name =>
      refine iff_of_false (fun h => nomatch h) fun h => ?_
      have hnot : name ∉ allowed := by simpa using List.find?_some hfind
      exact hnot (h allowed rfl name (List.mem_of_find?_eq_some hfind))

theorem blockedToolViolation_eq_none {names : List String} :
    blockedToolViolation F config names = none ↔
      ∀ blocked ∈ config.blockedTools, ∀ name ∈ names, F.toLowercase blocked ≠ F.toLowercase name := by
  rw [blockedToolViolation]
  cases hfind : names.find? (F.toLowercase · ∈ config.blockedTools.map F.toLowercase) with
  | none =>
    refine iff_of_true rfl fun blocked hblocked name hname heq => ?_
    have hnot := List.find?_eq_none.mp hfind name hname
    exact hnot (decide_eq_true (heq ▸ List.mem_map_of_mem hblocked))
  | some name =>
    refine iff_of_false (fun h => nomatch h) fun h => ?_
    have hfound := List.find?_some hfind
    obtain ⟨blocked, hblocked, heq⟩ := List.mem_map.mp (of_decide_eq_true hfound)
    exact h blocked hblocked name (List.mem_of_find?_eq_some hfind) heq

theorem exfiltrationViolation_eq_none {responseText : String} {thinkingText : Option String} :
    exfiltrationViolation F config responseText thinkingText = none ↔ (config.blockExfiltrationUrls = true →
      F.detectExfiltrationInText responseText = none ∧
        ∀ thinking ∈ thinkingText, F.detectExfiltrationInText thinking = none) := by
  rw [exfiltrationViolation]
  split
  · next hon =>
    rw [forall_prop_of_true hon]
    cases hresponse : F.detectExfiltrationInText responseText with
    | some detail => simp
    | none => simp [Option.bind_eq_none_iff]
  · next hoff => exact iff_of_true rfl fun hon => absurd hon hoff

theorem checkOutputGuardrails_pass :
    checkOutputGuardrails F policy.guardrailConfig response.responseText response.thinkingText
      response.toolCallNames policy.allowedTools = .pass ↔ Passes F policy response := by
  rw [checkOutputGuardrails]
  constructor
  · intro h
    split at h
    · cases h
    · next htopics =>
      split at h
      · cases h
      · next hallowed =>
        split at h
        · cases h
        · next hblocked =>
          split at h
          · cases h
          · next hexfiltration =>
            exact ⟨topicViolation_eq_none.mp htopics, allowedToolViolation_eq_none.mp hallowed,
              blockedToolViolation_eq_none.mp hblocked, exfiltrationViolation_eq_none.mp hexfiltration⟩
  · intro h
    rw [topicViolation_eq_none.mpr h.topics, allowedToolViolation_eq_none.mpr h.allowed,
      blockedToolViolation_eq_none.mpr h.notBlocked, exfiltrationViolation_eq_none.mpr h.exfiltration]

theorem GuardrailConfig.eq_of_isNoop (h : config.isNoop = true) : config = {} := by
  cases config
  simp only [GuardrailConfig.isNoop, Bool.and_eq_true, Bool.not_eq_true', Option.isNone_iff_eq_none,
    List.isEmpty_iff] at h
  obtain ⟨⟨⟨⟨⟨⟨⟨⟨⟨⟨rfl, rfl⟩, rfl⟩, rfl⟩, rfl⟩, rfl⟩, rfl⟩, rfl⟩, rfl⟩, rfl⟩, rfl⟩ := h
  rfl

theorem policed_iff_of_isNoop (h : policy.guardrailConfig.isNoop = true) :
    Policed F policy response ↔ ∀ allowed ∈ policy.allowedTools, ∀ name ∈ response.toolCallNames, name ∈ allowed := by
  refine ⟨fun hpoliced => hpoliced.allowed, fun hallowed => ?_⟩
  have hconfig := GuardrailConfig.eq_of_isNoop h
  refine ⟨⟨fun topic htopic => ?_, hallowed, fun blocked hblocked => ?_, fun hon => ?_⟩, fun hon => ?_⟩
  · rw [hconfig] at htopic
    cases htopic
  · rw [hconfig] at hblocked
    cases hblocked
  · rw [hconfig] at hon
    cases hon
  · rw [hconfig] at hon
    cases hon

/-- What comes out of the guardrails: the answer as it is if the project has none, else the masked answer, which
    meets the policy. -/
theorem applyOutputGuardrails_ok
    (h : applyOutputGuardrails F policy (.ok answer) = .ok response) :
    (policy.guardrailConfig.isNoop = true ∧ response = answer) ∨
      (policy.guardrailConfig.isNoop = false ∧ Policed F policy response) := by
  rw [applyOutputGuardrails] at h
  split at h
  · next hnoop =>
    cases h
    exact .inl ⟨hnoop, rfl⟩
  · next hnoop =>
    refine .inr ⟨Bool.eq_false_iff.mpr hnoop, ?_⟩
    dsimp only at h
    split at h
    · cases h
    · next hpass =>
      cases h
      refine ⟨checkOutputGuardrails_pass.mp hpass, fun hmask => ⟨answer, ?_⟩⟩
      rw [maskOutput, if_pos hmask]

@[simp] theorem maskOutput_usage : (maskOutput F config response).usage = response.usage := by
  unfold maskOutput
  split <;> rfl

theorem applyOutputGuardrails_usage (h : applyOutputGuardrails F policy (.ok answer) = .ok response) :
    response.usage = answer.usage := by
  rw [applyOutputGuardrails] at h
  split at h
  · cases h
    rfl
  · dsimp only at h
    split at h
    · cases h
    · cases h
      exact maskOutput_usage

theorem applyOutputGuardrails_error {error : GatewayError} :
    applyOutputGuardrails F policy (.error error) = .error error := by
  rw [applyOutputGuardrails]
  split <;> rfl

end Established

end Reiver.Flow
