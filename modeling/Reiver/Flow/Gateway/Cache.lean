import Reiver.Flow.Gateway.Guardrails

/-! # The response cache

The model of `GatewayCache` of `cache.rs`. The key of a response holds the project, the model and the request, and
nothing of the guardrails in force. The outer cache is a service that answers with what it finds similar. -/

namespace Reiver.Flow

/-- What the gateway takes from outside. `sha256Hex` is the hex digest of a text. -/
structure GatewayEnv where
  filters : TextFilters
  sha256Hex : String → String
  validateAgainstSchema : (text schema : String) → Except String Unit
  maxRetries : Nat := 2
  cacheEnabled : Bool := true

/-! ### What is cached -/

def modelIsInFamily (model family : List Char) : Bool :=
  decide (model = family) || (family ++ ['-']).isPrefixOf model || (family ++ [':']).isPrefixOf model

def usesProviderManagedSampling (model : String) : Bool :=
  let normalized := model.toList.map fun c => if c = '.' then '-' else c
  ["claude-opus-4-7", "claude-opus-4-8", "claude-opus-5", "claude-sonnet-5", "claude-fable-5", "claude-mythos-5"].any
    fun family => modelIsInFamily normalized family.toList

def isZeroTemperature (temperature : String) : Bool := temperature = "0" ∨ temperature = "-0"

def isCacheable (request : ChatCompletionRequest) : Bool :=
  !request.stream.getD false
    && !usesProviderManagedSampling request.model
    && request.temperature.any isZeroTemperature
    && request.tools.isNone
    && request.n.all (· = 1)

def MessageRole.json : MessageRole → String
  | .system => "\"system\""
  | .user => "\"user\""
  | .assistant => "\"assistant\""
  | .tool => "\"tool\""
  | .other => "\"other\""

def ChatMessage.hashed (message : ChatMessage) : String :=
  message.role.json ++ ":" ++ message.content.getD "" ++ (message.name.elim "" fun name => ":name:" ++ name) ++ "|"

/-- A parameter that is set, under its label. -/
def labelled (label : String) (value : Option String) : String := value.elim "" fun value => label ++ value

def ChatCompletionRequest.hashed (request : ChatCompletionRequest) : String :=
  String.join (request.messages.map (·.hashed))
    ++ labelled ":temp:" request.temperature
    ++ labelled ":top_p:" request.topP
    ++ labelled ":max_tokens:" (request.maxTokens.map toString)
    ++ labelled ":response_format:" request.responseFormat
    ++ labelled ":stop:" request.stop
    ++ labelled ":freq_pen:" request.frequencyPenalty
    ++ labelled ":pres_pen:" request.presencePenalty
    ++ labelled ":seed:" (request.seed.map toString)
    ++ labelled ":thinking:" (request.thinking.map fun thinking =>
      thinking.thinkingType ++ ":" ++ toString (thinking.budgetTokens.getD 0))
    ++ labelled ":reasoning_effort:" request.reasoningEffort

def generateCacheKey (env : GatewayEnv) (projectId : String) (request : ChatCompletionRequest) : String :=
  "project:" ++ projectId ++ ":model:" ++ request.model ++ ":hash:" ++
    String.ofList ((env.sha256Hex request.hashed).toList.take 32)

def cacheNamespace (projectId : String) : String := "project:" ++ projectId

/-! ### The two caches -/

/-- A stored response. The policy under which it was stored is history. -/
structure CachedResponse where
  response : ChatCompletionResponse
  policy : OutputPolicy
deriving DecidableEq

structure GatewayCache where
  l1 : Dict String CachedResponse := ∅
  semcache : Dict (String × String) CachedResponse := ∅

/-- What a lookup meets: whether the inner entry is still there, not expired and not invalidated, and the key of the
    entry that the service finds similar in the namespace. -/
structure CacheView where
  l1Live : Bool := true
  semcacheKey : Option String := none

namespace GatewayCache

/-- What the service answers for a namespace also goes to the inner cache. -/
def get (cache : GatewayCache) (env : GatewayEnv) (projectId : String) (request : ChatCompletionRequest)
    (view : CacheView) : GatewayCache × Option CachedResponse :=
  if env.cacheEnabled then
    let key := generateCacheKey env projectId request
    match if view.l1Live then cache.l1.lookup key else none with
    | some entry => (cache, some entry)
    | none =>
      match view.semcacheKey.bind fun similar => cache.semcache.lookup (cacheNamespace projectId, similar) with
      | some entry => ({ cache with l1 := cache.l1.insert key entry }, some entry)
      | none => (cache, none)
  else (cache, none)

def set (cache : GatewayCache) (env : GatewayEnv) (projectId : String) (request : ChatCompletionRequest)
    (entry : CachedResponse) (semcacheOk : Bool) : GatewayCache :=
  if env.cacheEnabled then
    let key := generateCacheKey env projectId request
    { l1 := cache.l1.insert key entry
      semcache := if semcacheOk then cache.semcache.insert (cacheNamespace projectId, key) entry else cache.semcache }
  else cache

structure All (p : CachedResponse → Prop) (cache : GatewayCache) : Prop where
  l1 : ∀ key entry, cache.l1.lookup key = some entry → p entry
  semcache : ∀ key entry, cache.semcache.lookup key = some entry → p entry

section All
variable {p : CachedResponse → Prop} {cache cache' : GatewayCache} {env : GatewayEnv} {projectId : String}
  {request : ChatCompletionRequest} {view : CacheView} {entry : CachedResponse}

theorem All.empty : All p {} where
  l1 _ _ h := nomatch h
  semcache _ _ h := nomatch h

theorem All.insertL1 (h : All p cache) (hentry : p entry) (key : String) :
    All p { cache with l1 := cache.l1.insert key entry } := by
  refine ⟨fun key' entry' hlook => ?_, h.semcache⟩
  rw [Dict.lookup_insert'] at hlook
  split at hlook
  · cases hlook
    exact hentry
  · exact h.l1 key' entry' hlook

theorem All.get {found : Option CachedResponse} (h : All p cache)
    (hget : cache.get env projectId request view = (cache', found)) :
    All p cache' ∧ ∀ entry ∈ found, p entry := by
  rw [GatewayCache.get] at hget
  split at hget
  · dsimp only at hget
    split at hget
    · next entry hl1 =>
      cases hget
      refine ⟨h, fun entry hmem => ?_⟩
      cases hmem
      split at hl1
      · exact h.l1 _ _ hl1
      · cases hl1
    · split at hget
      · next entry hsemcache =>
        cases hget
        obtain ⟨similar, -, hlook⟩ := Option.bind_eq_some_iff.mp hsemcache
        have hentry := h.semcache _ _ hlook
        refine ⟨h.insertL1 hentry _, fun entry' hmem => ?_⟩
        cases hmem
        exact hentry
      · cases hget
        exact ⟨h, fun entry hmem => nomatch hmem⟩
  · cases hget
    exact ⟨h, fun entry hmem => nomatch hmem⟩

theorem All.set {semcacheOk : Bool} (h : All p cache) (hentry : p entry) :
    All p (cache.set env projectId request entry semcacheOk) := by
  rw [GatewayCache.set]
  split
  · refine ⟨(h.insertL1 hentry _).l1, fun key' entry' hlook => ?_⟩
    dsimp only at hlook
    split at hlook
    · rw [Dict.lookup_insert'] at hlook
      split at hlook
      · cases hlook
        exact hentry
      · exact h.semcache key' entry' hlook
    · exact h.semcache key' entry' hlook
  · exact h

end All

end GatewayCache

end Reiver.Flow
