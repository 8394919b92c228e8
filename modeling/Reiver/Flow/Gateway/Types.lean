import Reiver.Lib.Dict

/-! # Types of the gateway

Requests, responses, errors and provider candidates, with the fields that execution, guardrails, caching and billing
read. Floating-point parameters are kept as their printed text. -/

namespace Reiver.Flow

inductive Provider where
  | openAi
  | anthropic
  | google
  | bedrock
  | theta
  | thetaDedicated
  | deepSeek
  | xai
  | mistral
  | groq
  | together
  | fireworks
  | perplexity
  | cohere
  | openRouter
  | cerebras
  | deepInfra
  | alibaba
  | nvidia
  | ai21
  | sambaNova
  | lambda
  | lepton
  | hyperbolic
  | ovhCloud
  | novita
  | huggingFace
  | cloudflare
  | azureOpenAi
  | vertexAi
deriving DecidableEq

def Provider.asStr : Provider → String
  | .openAi => "openai"
  | .anthropic => "anthropic"
  | .google => "google"
  | .bedrock => "bedrock"
  | .theta => "theta"
  | .thetaDedicated => "theta-dedicated"
  | .deepSeek => "deepseek"
  | .xai => "x-ai"
  | .mistral => "mistralai"
  | .groq => "groq"
  | .together => "together"
  | .fireworks => "fireworks"
  | .perplexity => "perplexity"
  | .cohere => "cohere"
  | .openRouter => "openrouter"
  | .cerebras => "cerebras"
  | .deepInfra => "deepinfra"
  | .alibaba => "qwen"
  | .nvidia => "nvidia"
  | .ai21 => "ai21"
  | .sambaNova => "sambanova"
  | .lambda => "lambda"
  | .lepton => "lepton"
  | .hyperbolic => "hyperbolic"
  | .ovhCloud => "ovhcloud"
  | .novita => "novita"
  | .huggingFace => "huggingface"
  | .cloudflare => "cloudflare"
  | .azureOpenAi => "azure-openai"
  | .vertexAi => "vertex-ai"

inductive MessageRole where
  | system
  | user
  | assistant
  | tool
  | other
deriving DecidableEq

/-- A message of a request, its content as text. -/
structure ChatMessage where
  role : MessageRole
  content : Option String := none
  name : Option String := none
deriving DecidableEq

structure ThinkingConfig where
  thinkingType : String
  budgetTokens : Option Nat := none
deriving DecidableEq

structure ChatCompletionRequest where
  model : String
  messages : List ChatMessage
  temperature : Option String := none
  topP : Option String := none
  maxTokens : Option Nat := none
  n : Option Nat := none
  stream : Option Bool := none
  responseFormat : Option String := none
  stop : Option String := none
  frequencyPenalty : Option String := none
  presencePenalty : Option String := none
  seed : Option Int := none
  tools : Option (List String) := none
  thinking : Option ThinkingConfig := none
  reasoningEffort : Option String := none
deriving DecidableEq

structure Usage where
  promptTokens : Nat := 0
  completionTokens : Nat := 0
  cachedTokens : Nat := 0
deriving DecidableEq

structure ToolCall where
  name : String
  arguments : String
deriving DecidableEq

structure AssistantMessage where
  content : Option String := none
  toolCalls : Option (List ToolCall) := none
  thinking : Option String := none
deriving DecidableEq

structure ChatCompletionResponse where
  model : String
  choices : List AssistantMessage
  usage : Usage
deriving DecidableEq

inductive GuardrailRule where
  | piiBlocked
  | tokenLimit
  | blockedInputTopic
  | blockedOutputTopic
  | promptInjectionDetected
  | toolCallBlocked
  | exfiltrationBlocked
deriving DecidableEq

inductive GatewayError where
  | unsupportedModel (model : String)
  | authenticationFailed (message : String)
  | rateLimitExceeded (limit resetSeconds : Nat)
  | providerError (provider : Provider) (status : Nat) (message : String)
  | validationError (message : String)
  | missingProviderKey (message : String)
  | networkError (message : String)
  | internalError (message : String)
  | timeout (message : String)
  | sessionBudgetExceeded (limitUsd usedUsd sessionId : String)
  | guardrailViolation (rule : GuardrailRule) (detail : String)
  | promptVariableValidation (variableName detail : String)
  | outputContractViolation (detail : String)
  | paymentRequired
deriving DecidableEq

def GuardrailRule.asStr : GuardrailRule → String
  | .piiBlocked => "pii_blocked"
  | .tokenLimit => "token_limit"
  | .blockedInputTopic => "blocked_input_topic"
  | .blockedOutputTopic => "blocked_output_topic"
  | .promptInjectionDetected => "prompt_injection_detected"
  | .toolCallBlocked => "tool_call_blocked"
  | .exfiltrationBlocked => "exfiltration_blocked"

/-- An error as it is printed, the amounts of a budget with six decimals. -/
def GatewayError.display : GatewayError → String
  | .unsupportedModel model => "Model '" ++ model ++ "' is not supported"
  | .authenticationFailed message => "Authentication failed: " ++ message
  | .rateLimitExceeded limit _ => "Rate limit exceeded: " ++ toString limit ++ " requests"
  | .providerError provider _ message => "Provider '" ++ provider.asStr ++ "' error: " ++ message
  | .validationError message => "Validation error: " ++ message
  | .missingProviderKey message => message
  | .networkError message => "Network error: " ++ message
  | .internalError message => "Internal error: " ++ message
  | .timeout message => "Request timeout: " ++ message
  | .sessionBudgetExceeded limitUsd usedUsd sessionId =>
    "Session budget exceeded for session '" ++ sessionId ++ "': used $" ++ usedUsd ++ ", limit $" ++ limitUsd
  | .guardrailViolation rule detail => "Guardrail violation [" ++ rule.asStr ++ "]: " ++ detail
  | .promptVariableValidation variableName detail =>
    "Prompt variable validation failed for '" ++ variableName ++ "': " ++ detail
  | .outputContractViolation detail => "Output contract violation: " ++ detail
  | .paymentRequired => "Payment method required"

structure ProviderCandidate where
  provider : Provider
  model : String
  key : String
  isPlatformKey : Bool
deriving DecidableEq

end Reiver.Flow
