import Reiver.Flow.Gateway.Cache
import Reiver.Flow.Gateway.Execution

/-! # A chat request

The model of the non-streaming part of `chat_completions_inner` of `routes/mod.rs` from the cache lookup on, and of
`enforce_output_contract` of `response.rs`. The output contract runs on what the guardrails have let through, and may
put the answer of a second call in its place. -/

namespace Reiver.Flow

inductive OutputFailureAction where
  | error
  | retry
  | retryThenPassthrough
  | logOnly
deriving DecidableEq

structure PromptResolution where
  outputSchema : Option String := none
  outputFailureAction : OutputFailureAction := .error
  allowedTools : Option (List String) := none
deriving DecidableEq

/-- A request with what has been resolved for it before the cache is asked. The chain has a first candidate. -/
structure ChatContext where
  projectId : String
  request : ChatCompletionRequest
  guardrailConfig : GuardrailConfig := {}
  promptResolution : Option PromptResolution := none
  primary : ProviderCandidate
  fallbacks : List ProviderCandidate := []
  sessionId : String := ""
  sessionBudgetUsd : Option String := none
  orgId : Option Uuid := none

/-- What the providers answer to the chain, and to the second call of the output contract. -/
structure ProviderOutcomes where
  execution : Answers ChatCompletionResponse
  contractRetry : Answers ChatCompletionResponse

namespace ChatContext

def chain (ctx : ChatContext) : List ProviderCandidate := ctx.primary :: ctx.fallbacks

def policy (ctx : ChatContext) : OutputPolicy where
  guardrailConfig := ctx.guardrailConfig
  allowedTools := ctx.promptResolution.bind (·.allowedTools)

/-- The candidate of the second call: the first of the chain, with the model of the request. -/
def retryCandidate (ctx : ChatContext) : ProviderCandidate := { ctx.primary with model := ctx.request.model }

end ChatContext

/-! ### The output contract -/

/-- What the output contract makes of a response. -/
inductive ContractVerdict where
  | keep
  | replace (answer : ChatCompletionResponse)
  | fail (error : GatewayError)

/-- The text that is held against the schema. -/
def ChatCompletionResponse.contractText (response : ChatCompletionResponse) : String :=
  (response.choices.head?.bind (·.content)).getD ""

/-- The schema that a response violates, the reason, and what the prompt says to do about it. -/
structure ContractViolation where
  schema : String
  action : OutputFailureAction
  detail : String

section Contract
variable (env : GatewayEnv) (ctx : ChatContext)

def contractViolation (response : ChatCompletionResponse) : Option ContractViolation :=
  ctx.promptResolution.bind fun resolution =>
    resolution.outputSchema.bind fun schema =>
      match env.validateAgainstSchema response.contractText schema with
      | .ok () => none
      | .error detail => some { schema, action := resolution.outputFailureAction, detail }

def contractRetry (outcomes : ProviderOutcomes) : Except GatewayError (FallbackResult ChatCompletionResponse) :=
  executeChain env.maxRetries outcomes.contractRetry [ctx.retryCandidate]

def retryVerdict (violation : ContractViolation)
    (retryFb : Except GatewayError (FallbackResult ChatCompletionResponse)) : ContractVerdict :=
  match retryFb with
  | .ok fb =>
    match env.validateAgainstSchema fb.result.contractText violation.schema with
    | .ok () => .replace fb.result
    | .error retryDetail =>
      if violation.action = .retryThenPassthrough then .keep else .fail (.outputContractViolation retryDetail)
  | .error error =>
    if violation.action = .retryThenPassthrough then .keep
    else .fail (.outputContractViolation ("retry provider call failed: " ++ error.display))

def contractVerdict (outcomes : ProviderOutcomes) (response : ChatCompletionResponse) : ContractVerdict :=
  match contractViolation env ctx response with
  | none => .keep
  | some violation =>
    match violation.action with
    | .logOnly => .keep
    | .retry => retryVerdict env violation (contractRetry env ctx outcomes)
    | .retryThenPassthrough => retryVerdict env violation (contractRetry env ctx outcomes)
    | .error => .fail (.outputContractViolation violation.detail)

def enforceOutputContract (outcomes : ProviderOutcomes) (result : Except GatewayError ChatCompletionResponse) :
    Except GatewayError ChatCompletionResponse :=
  match result with
  | .error error => .error error
  | .ok response =>
    match contractVerdict env ctx outcomes response with
    | .keep => .ok response
    | .replace answer => .ok answer
    | .fail error => .error error

/-! ### The request after the cache -/

def execution (outcomes : ProviderOutcomes) : Except GatewayError (FallbackResult ChatCompletionResponse) :=
  executeChain env.maxRetries outcomes.execution ctx.chain

/-- What the guardrails leave of the execution. -/
def guarded (outcomes : ProviderOutcomes) : Except GatewayError ChatCompletionResponse :=
  applyOutputGuardrails env.filters ctx.policy ((execution env ctx outcomes).map (·.result))

def answerRequest (outcomes : ProviderOutcomes) : Except GatewayError ChatCompletionResponse :=
  enforceOutputContract env ctx outcomes (guarded env ctx outcomes)

end Contract

/-! ### The gateway -/

/-- A write to the cache that has been started. -/
structure PendingSet where
  projectId : String
  request : ChatCompletionRequest
  entry : CachedResponse

structure Gateway where
  cache : GatewayCache := {}
  pending : List PendingSet := []

/-- A request is served, or a write to the cache takes place. -/
inductive GatewayAction where
  | chat (ctx : ChatContext) (view : CacheView) (outcomes : ProviderOutcomes)
  | cacheSet (index : Nat) (semcacheOk : Bool)

namespace Gateway
variable (env : GatewayEnv)

/-- The lookup of a request, which only cacheable requests make. -/
def lookup (g : Gateway) (ctx : ChatContext) (view : CacheView) : GatewayCache × Option CachedResponse :=
  if isCacheable ctx.request then g.cache.get env ctx.projectId ctx.request view else (g.cache, none)

def chatCompletions (g : Gateway) (ctx : ChatContext) (view : CacheView) (outcomes : ProviderOutcomes) :
    Except GatewayError ChatCompletionResponse :=
  match (g.lookup env ctx view).2 with
  | some cached => .ok cached.response
  | none => answerRequest env ctx outcomes

/-- The write that follows an answered request, if it is cacheable. -/
def newSet (ctx : ChatContext) (result : Except GatewayError ChatCompletionResponse) : List PendingSet :=
  match result with
  | .ok response =>
    if isCacheable ctx.request then [⟨ctx.projectId, ctx.request, ⟨response, ctx.policy⟩⟩] else []
  | .error _ => []

def step (g : Gateway) : GatewayAction → Option Gateway
  | .chat ctx view outcomes =>
    if ctx.request.stream.getD false then none
    else
      match g.lookup env ctx view with
      | (cache, some _) => some { g with cache }
      | (cache, none) => some { cache, pending := g.pending ++ newSet ctx (answerRequest env ctx outcomes) }
  | .cacheSet index semcacheOk =>
    (g.pending[index]?).map fun write =>
      { cache := g.cache.set env write.projectId write.request write.entry semcacheOk
        pending := g.pending.eraseIdx index }

end Gateway

end Reiver.Flow
