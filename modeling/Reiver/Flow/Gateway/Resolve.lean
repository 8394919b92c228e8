import Reiver.Flow.Gateway.Types
import Reiver.Lib.Fallible
import Mathlib.Data.List.Sort

/-! # Resolving a provider chain

`resolve_provider_chain` of `resolve.rs` with the tables it reads: the models of a request become candidates, each at
the provider its name stands for, in the order they are tried. Preferences rewrite the names of models that several
providers serve. -/

namespace Reiver.Flow

/-! ### Providers and their models -/

namespace Provider

def all : List Provider :=
  [.openAi, .anthropic, .google, .bedrock, .theta, .thetaDedicated, .deepSeek, .xai, .mistral, .groq, .together,
    .fireworks, .perplexity, .cohere, .openRouter, .cerebras, .deepInfra, .alibaba, .nvidia, .ai21, .sambaNova, .lambda,
    .lepton, .hyperbolic, .ovhCloud, .novita, .huggingFace, .cloudflare, .azureOpenAi, .vertexAi]

def modelPrefixes : Provider → List String
  | .openAi =>
    ["text-embedding-", "chatgpt-", "whisper-", "dall-e-", "gpt-", "tts-", "o1-", "o3-", "o4-", "o1", "o3", "o4"]
  | .anthropic => ["claude-"]
  | .google => ["gemini-"]
  | .bedrock => ["anthropic.", "mistral.", "bedrock/", "amazon.", "cohere.", "meta.", "ai21."]
  | .theta => ["theta/"]
  | .thetaDedicated => ["theta-dedicated/"]
  | .deepSeek => ["deepseek/"]
  | .xai => ["grok-"]
  | .mistral => ["mistral/"]
  | .groq => ["groq/"]
  | .together => ["together/"]
  | .fireworks => ["fireworks/"]
  | .perplexity => ["perplexity/"]
  | .cohere => ["cohere/"]
  | .openRouter => ["openrouter/"]
  | .cerebras => ["cerebras/"]
  | .deepInfra => ["deepinfra/"]
  | .alibaba => ["qwen/"]
  | .nvidia => ["nvidia/"]
  | .ai21 => ["ai21/"]
  | .sambaNova => ["sambanova/"]
  | .lambda => ["lambda/"]
  | .lepton => ["lepton/"]
  | .hyperbolic => ["hyperbolic/"]
  | .ovhCloud => ["ovhcloud/"]
  | .novita => ["novita/"]
  | .huggingFace => ["huggingface/"]
  | .cloudflare => ["cloudflare/"]
  | .azureOpenAi => ["azure/"]
  | .vertexAi => ["vertex/"]

def prefixTable (providers : List Provider) : List (String × Provider) :=
  (providers.flatMap fun provider => provider.modelPrefixes.map fun start => (start, provider)).insertionSort
    fun a b => b.1.length ≤ a.1.length

def lookupPrefix (table : List (String × Provider)) (model : String) : Option Provider :=
  (table.find? fun e => e.1.toList.isPrefixOf model.toList).map (·.2)

def fromModelPrefix (model : String) : Option Provider := lookupPrefix (prefixTable all) model

end Provider

def providerMap : List Provider :=
  [.openAi, .anthropic, .google, .bedrock, .theta, .thetaDedicated, .deepSeek, .xai, .mistral, .groq, .together,
    .fireworks, .perplexity, .cohere, .openRouter, .cerebras, .deepInfra, .alibaba, .nvidia, .ai21, .sambaNova, .lambda,
    .lepton, .hyperbolic, .ovhCloud, .novita, .huggingFace, .cloudflare, .azureOpenAi, .vertexAi]

/-- The implementation that serves a model, known by its provider. -/
def route (model : String) : Option Provider := Provider.lookupPrefix (Provider.prefixTable providerMap) model

def getProviderName (model : String) : Option String := (route model).map (·.asStr)

structure ModelEndpoint where
  provider : Provider
  providerModelId : String
deriving DecidableEq

def bedrockModelIds : List (String × String) :=
  [("claude-sonnet-4-6", "anthropic.claude-sonnet-4-6-v1:0"),
    ("claude-opus-4-6", "anthropic.claude-opus-4-6-v1:0"),
    ("claude-haiku-4-5-20251001", "anthropic.claude-haiku-4-5-20251001-v1:0"),
    ("claude-haiku-4-5", "anthropic.claude-haiku-4-5-20251001-v1:0"),
    ("claude-sonnet-4-20250514", "anthropic.claude-sonnet-4-20250514-v1:0"),
    ("claude-sonnet-4", "anthropic.claude-sonnet-4-20250514-v1:0"),
    ("claude-opus-4-20250514", "anthropic.claude-opus-4-20250514-v1:0"),
    ("claude-opus-4", "anthropic.claude-opus-4-20250514-v1:0")]

def anthropicToBedrockModelId (anthropicModel : String) : Option String :=
  (bedrockModelIds.find? (·.1 = anthropicModel)).map (·.2)

def getModelEndpoints (canonicalModel : String) : List ModelEndpoint :=
  match Provider.fromModelPrefix canonicalModel with
  | none => []
  | some provider =>
    let native : ModelEndpoint := ⟨provider, canonicalModel⟩
    let bedrock :=
      if provider = .anthropic then
        (anthropicToBedrockModelId canonicalModel).toList.map fun bedrockId => ⟨.bedrock, bedrockId⟩
      else []
    native :: bedrock

/-- The endpoints that have an implementation. -/
def routeAll (canonicalModel : String) : List (Provider × ModelEndpoint) :=
  (getModelEndpoints canonicalModel).filterMap fun endpoint =>
    (route endpoint.providerModelId).map fun llm => (llm, endpoint)

/-! ### Preferences -/

structure ProviderPreferences where
  order : Option (List String) := none
  only : Option (List String) := none
  ignore : Option (List String) := none
deriving DecidableEq

def ProviderPreferences.allows (prefs : ProviderPreferences) (provider : Provider) : Bool :=
  prefs.only.all (fun only => only.isEmpty || only.contains provider.asStr)
    && prefs.ignore.all fun ignore => !ignore.contains provider.asStr

def usizeMax : Nat := 18446744073709551615

def applyProviderFilter (endpoints : List (Provider × ModelEndpoint)) (prefs : ProviderPreferences) :
    List (Provider × ModelEndpoint) :=
  let filtered := endpoints.filter fun e => prefs.allows e.2.provider
  match prefs.order with
  | none => filtered
  | some order =>
    let place (e : Provider × ModelEndpoint) : Nat := (order.idxOf? e.2.provider.asStr).getD usizeMax
    filtered.insertionSort fun a b => place a ≤ place b

/-- The name of a model that several providers serve is rewritten for the first one that is kept. -/
def preferredModel (prefs : ProviderPreferences) (model : String) : String :=
  let allEndpoints := routeAll model
  if allEndpoints.length ≤ 1 then model
  else ((applyProviderFilter allEndpoints prefs).head?.map (·.2.providerModelId)).getD model

def applyPreferences (models : List String) (prefs : Option ProviderPreferences) : List String :=
  match prefs with
  | none => models
  | some prefs => models.map (preferredModel prefs)

structure ProviderPreferences.Permits (prefs : ProviderPreferences) (provider : Provider) : Prop where
  only : ∀ only ∈ prefs.only, only ≠ [] → provider.asStr ∈ only
  ignore : ∀ ignore ∈ prefs.ignore, provider.asStr ∉ ignore

/-! ### Models and keys -/

structure ResolvedBatchKey where
  key : String
  isPlatform : Bool
deriving DecidableEq

structure CachedProviderKey where
  key : ResolvedBatchKey
  live : Bool

/-- What a request finds: the latency tracker, the providers the project may use, the model each of them is derived
    to, and the keys in the cache, in the project's settings (as far as they decrypt) and of the platform. -/
structure ResolveEnv where
  p95 : Provider → Option Nat := fun _ => none
  availableProviders : List Provider := []
  autoModelForProvider : Provider → Option String := fun _ => none
  providerKeyCache : String → Option CachedProviderKey := fun _ => none
  settingsReadable : Bool := true
  settingsKey : String → Option String := fun _ => none
  defaultKey : String → Option String := fun _ => none

/-- Candidates come by the name of their provider. -/
def getLatencySortedProviders (env : ResolveEnv) (candidates : List Provider) : List Provider :=
  let withLatency := candidates.filterMap fun provider => (env.p95 provider).map fun p95 => (provider, p95)
  let withoutLatency := candidates.filter fun provider => (env.p95 provider).isNone
  (withLatency.insertionSort fun a b => a.2 ≤ b.2).map (·.1) ++ withoutLatency

def orderModelsByLatency (env : ResolveEnv) (fallbackModels : List String) : List String :=
  let sortedProviders := getLatencySortedProviders env (fallbackModels.filterMap route)
  if sortedProviders = [] then fallbackModels
  else
    let ordered := sortedProviders.flatMap fun provider => fallbackModels.filter fun model =>
      route model = some provider
    (ordered ++ fallbackModels).eraseDups

def resolveFallbackTail (env : ResolveEnv) (requestModels : Option (List String))
    (defaultFallbackModels : List String) :
    List String :=
  let requested := requestModels.getD []
  if requested ≠ [] then requested
  else if defaultFallbackModels ≠ [] then defaultFallbackModels
  else env.availableProviders.filterMap env.autoModelForProvider

/-- The key of a provider: cached, of the project, or the platform's. -/
def ResolveEnv.resolveKey (env : ResolveEnv) (slug : String) : Option ResolvedBatchKey :=
  match (env.providerKeyCache slug).filter (·.live) with
  | some cached => some cached.key
  | none =>
    match env.settingsKey slug with
    | some key => some { key, isPlatform := false }
    | none => (env.defaultKey slug).map fun key => { key, isPlatform := true }

/-- The settings are read if a key is not cached. -/
def getProviderKeysBatch (env : ResolveEnv) (providers : List String) :
    Except GatewayError (Dict String ResolvedBatchKey) :=
  let missing := providers.filter fun slug => !(env.providerKeyCache slug).any (·.live)
  if missing ≠ [] ∧ !env.settingsReadable then
    .error (.internalError "Failed to batch fetch provider keys from database")
  else .ok (Dict.ofPairs (providers.filterMap fun slug => (env.resolveKey slug).map fun key => (slug, key)))

/-! ### The chain -/

/-- A candidate with the provider whose implementation is called. -/
structure RoutedCandidate extends ProviderCandidate where
  providerImpl : Provider
deriving DecidableEq

structure ResolveRequest where
  primaryModel : String
  requestModels : Option (List String) := none
  defaultFallbackModels : List String := []
  providerPrefs : Option ProviderPreferences := none
  fallbackAllowed : Bool := true
  thetaDedicatedBaseUrl : Option String := none

def ResolveRequest.models (request : ResolveRequest) (env : ResolveEnv) : List String :=
  let tail :=
    if request.fallbackAllowed then
      let fallbackTail := resolveFallbackTail env request.requestModels request.defaultFallbackModels
      orderModelsByLatency env (fallbackTail.filter (· ≠ request.primaryModel))
    else []
  (request.primaryModel :: tail).eraseDups

/-- A dedicated deployment is called at its base URL. -/
def ResolveRequest.implementation (request : ResolveRequest) (provider : Provider) (model : String) : Option Provider :=
  if provider = .thetaDedicated then request.thetaDedicatedBaseUrl.map fun _ => .thetaDedicated else route model

def resolveCandidate (env : ResolveEnv) (request : ResolveRequest) (keys : Dict String ResolvedBatchKey)
    (model : String) : Option RoutedCandidate := do
  let provider ← Provider.fromModelPrefix model
  let providerImpl ← request.implementation provider model
  -- A cached key is used even when it is out of date.
  let resolved ← (keys.lookup provider.asStr).or ((env.providerKeyCache provider.asStr).map (·.key))
  some { provider, model, key := resolved.key, isPlatformKey := resolved.isPlatform, providerImpl }

def resolveProviderChain (env : ResolveEnv) (request : ResolveRequest) :
    Except GatewayError (List RoutedCandidate) := do
  let models := applyPreferences (request.models env) request.providerPrefs
  let keys ← getProviderKeysBatch env (models.filterMap getProviderName)
  let chain := models.filterMap (resolveCandidate env request keys)
  if chain = [] then .error (.missingProviderKey "No provider candidates with valid keys") else .ok chain

/-! ### Who serves a candidate -/

/-- A chain serves no candidate against the preferences, and is returned only with a candidate that satisfies them. -/
structure PreferencesKept (env : ResolveEnv) (request : ResolveRequest) : Prop where
  served : ∀ chain, resolveProviderChain env request = .ok chain → ∀ candidate ∈ chain,
    ∀ prefs ∈ request.providerPrefs, prefs.Permits candidate.provider ∧ prefs.Permits candidate.providerImpl
  refused : ∀ chain, resolveProviderChain env request = .ok chain →
    ∃ candidate ∈ chain, ∀ prefs ∈ request.providerPrefs, prefs.Permits candidate.provider

/-- The provider has a key, and a base URL if it needs one. -/
structure Usable (env : ResolveEnv) (request : ResolveRequest) (provider : Provider) : Prop where
  baseUrl : provider = .thetaDedicated → request.thetaDedicatedBaseUrl.isSome
  key : ((env.resolveKey provider.asStr).or ((env.providerKeyCache provider.asStr).map (·.key))).isSome

/-- A model of the request, before its preferences. -/
def ResolveRequest.Names (request : ResolveRequest) (env : ResolveEnv) (model : String) : Prop :=
  model = request.primaryModel ∨ request.fallbackAllowed ∧
    model ∈ resolveFallbackTail env request.requestModels request.defaultFallbackModels

/-- A key is needed that is not cached, and the settings cannot be read. -/
def KeysUnreadable (env : ResolveEnv) (request : ResolveRequest) : Prop :=
  env.settingsReadable = false ∧ ∃ model ∈ applyPreferences (request.models env) request.providerPrefs,
    ∃ slug ∈ getProviderName model, (env.providerKeyCache slug).any (·.live) = false

/-- Every model whose own provider is usable has an endpoint that the preferences permit. -/
def EndpointsPermitted (env : ResolveEnv) (request : ResolveRequest) : Prop :=
  ∀ model, request.Names env model → ∀ provider, Provider.fromModelPrefix model = some provider →
    Usable env request provider → ∀ prefs ∈ request.providerPrefs,
      ∃ endpoint ∈ getModelEndpoints model, prefs.Permits endpoint.provider

section Resolve
variable {env : ResolveEnv} {request : ResolveRequest} {model : String} {provider : Provider}
  {prefs : ProviderPreferences} {endpoint : ModelEndpoint}

theorem route_eq (model : String) : route model = Provider.fromModelPrefix model := rfl

theorem allows_iff : prefs.allows provider = true ↔ prefs.Permits provider := by
  rw [ProviderPreferences.allows, Bool.and_eq_true]
  constructor
  · rintro ⟨honly, hignore⟩
    refine ⟨fun only h hne => ?_, fun ignore h hmem => ?_⟩
    · rw [Option.mem_def.mp h] at honly
      simpa [hne] using honly
    · rw [Option.mem_def.mp h] at hignore
      simp [hmem] at hignore
  · rintro ⟨honly, hignore⟩
    constructor
    · cases h : prefs.only with
      | none => rfl
      | some only =>
        by_cases hne : only = []
        · simp [hne]
        · simpa using Or.inr (honly only h hne)
    · cases h : prefs.ignore with
      | none => rfl
      | some ignore => simpa using hignore ignore h

theorem fromModelPrefix_bedrock {anthropicModel bedrockId : String}
    (h : anthropicToBedrockModelId anthropicModel = some bedrockId) :
    Provider.fromModelPrefix bedrockId = some .bedrock := by
  have hall : ∀ e ∈ bedrockModelIds, Provider.fromModelPrefix e.2 = some .bedrock := by decide +kernel
  obtain ⟨e, he, rfl⟩ := Option.map_eq_some_iff.mp h
  exact hall e (List.mem_of_find?_eq_some he)

theorem fromModelPrefix_endpoint (h : endpoint ∈ getModelEndpoints model) :
    Provider.fromModelPrefix endpoint.providerModelId = some endpoint.provider := by
  rw [getModelEndpoints] at h
  split at h
  · cases h
  · next provider hprovider =>
    rcases List.mem_cons.mp h with rfl | h
    · exact hprovider
    · split at h
      · obtain ⟨bedrockId, hid, rfl⟩ := List.mem_map.mp h
        exact fromModelPrefix_bedrock (Option.mem_toList.mp hid)
      · cases h

theorem native_mem (h : Provider.fromModelPrefix model = some provider) :
    ⟨provider, model⟩ ∈ getModelEndpoints model := by
  rw [getModelEndpoints, h]
  exact List.mem_cons_self

theorem routeAll_eq : routeAll model = (getModelEndpoints model).map fun endpoint => (endpoint.provider, endpoint) := by
  rw [routeAll, ← List.filterMap_eq_map]
  refine List.filterMap_congr fun endpoint h => ?_
  rw [route_eq, fromModelPrefix_endpoint h]
  rfl

theorem mem_applyProviderFilter {endpoints : List (Provider × ModelEndpoint)} {e : Provider × ModelEndpoint} :
    e ∈ applyProviderFilter endpoints prefs ↔ e ∈ endpoints ∧ prefs.allows e.2.provider = true := by
  rw [applyProviderFilter]
  split
  · exact List.mem_filter
  · exact (List.mem_insertionSort _).trans List.mem_filter

theorem preferredModel_cases (prefs : ProviderPreferences) (model : String) :
    (∃ endpoint ∈ getModelEndpoints model, prefs.Permits endpoint.provider ∧
        preferredModel prefs model = endpoint.providerModelId) ∨
      preferredModel prefs model = model ∧ ((getModelEndpoints model).length ≤ 1 ∨
        ∀ endpoint ∈ getModelEndpoints model, ¬prefs.Permits endpoint.provider) := by
  rw [preferredModel]
  have hlength : (routeAll model).length = (getModelEndpoints model).length := by
    rw [routeAll_eq, List.length_map]
  split
  · next hsingle => exact .inr ⟨rfl, .inl (hlength ▸ hsingle)⟩
  · cases hfiltered : applyProviderFilter (routeAll model) prefs with
    | nil =>
      refine .inr ⟨rfl, .inr fun endpoint hendpoint hpermits => ?_⟩
      have hmem : (endpoint.provider, endpoint) ∈ applyProviderFilter (routeAll model) prefs :=
        mem_applyProviderFilter.mpr ⟨by rw [routeAll_eq]; exact List.mem_map_of_mem hendpoint, allows_iff.mpr hpermits⟩
      rw [hfiltered] at hmem
      cases hmem
    | cons e rest =>
      have hmem : e ∈ applyProviderFilter (routeAll model) prefs := hfiltered ▸ List.mem_cons_self
      obtain ⟨hroute, hallows⟩ := mem_applyProviderFilter.mp hmem
      rw [routeAll_eq] at hroute
      obtain ⟨endpoint, hendpoint, rfl⟩ := List.mem_map.mp hroute
      exact .inl ⟨endpoint, hendpoint, allows_iff.mp hallows, rfl⟩

theorem mem_orderModelsByLatency {models : List String} : model ∈ orderModelsByLatency env models ↔ model ∈ models := by
  rw [orderModelsByLatency]
  dsimp only
  split
  · exact Iff.rfl
  · rw [List.mem_eraseDups, List.mem_append, or_iff_right_of_imp]
    intro h
    obtain ⟨provider, -, hmem⟩ := List.mem_flatMap.mp h
    exact (List.mem_filter.mp hmem).1

theorem mem_models : model ∈ request.models env ↔ request.Names env model := by
  rw [ResolveRequest.models, ResolveRequest.Names, List.mem_eraseDups, List.mem_cons]
  by_cases hprimary : model = request.primaryModel
  · exact iff_of_true (.inl hprimary) (.inl hprimary)
  · rw [or_iff_right hprimary, or_iff_right hprimary]
    split
    · next hallowed =>
      rw [mem_orderModelsByLatency, List.mem_filter, and_iff_left (decide_eq_true hprimary)]
      exact (and_iff_right hallowed).symm
    · next hallowed => exact iff_of_false List.not_mem_nil fun h => hallowed h.1

theorem resolveCandidate_ok {keys : Dict String ResolvedBatchKey} {candidate : RoutedCandidate}
    (hkeys : ∀ provider, Provider.fromModelPrefix model = some provider →
      keys.lookup provider.asStr = env.resolveKey provider.asStr)
    (h : resolveCandidate env request keys model = some candidate) :
    Provider.fromModelPrefix model = some candidate.provider ∧ candidate.providerImpl = candidate.provider ∧
      Usable env request candidate.provider := by
  obtain ⟨provider, hprovider, h⟩ := Option.bind_eq_some_iff.mp h
  obtain ⟨providerImpl, himpl, h⟩ := Option.bind_eq_some_iff.mp h
  obtain ⟨resolved, hresolved, h⟩ := Option.bind_eq_some_iff.mp h
  cases h
  rw [hkeys provider hprovider] at hresolved
  have hkey := Option.isSome_iff_exists.mpr ⟨resolved, hresolved⟩
  rw [ResolveRequest.implementation] at himpl
  split at himpl
  · next hdedicated =>
    obtain ⟨baseUrl, hbaseUrl, rfl⟩ := Option.map_eq_some_iff.mp himpl
    exact ⟨hprovider, hdedicated.symm, fun _ => Option.isSome_iff_exists.mpr ⟨baseUrl, hbaseUrl⟩, hkey⟩
  · next hother =>
    rw [route_eq, hprovider] at himpl
    cases himpl
    exact ⟨hprovider, rfl, fun hdedicated => absurd hdedicated hother, hkey⟩

theorem resolveCandidate_of_usable {keys : Dict String ResolvedBatchKey}
    (hkeys : keys.lookup provider.asStr = env.resolveKey provider.asStr)
    (hprovider : Provider.fromModelPrefix model = some provider) (h : Usable env request provider) :
    ∃ candidate, resolveCandidate env request keys model = some candidate := by
  obtain ⟨resolved, hresolved⟩ := Option.isSome_iff_exists.mp h.key
  rw [← hkeys] at hresolved
  obtain ⟨providerImpl, himpl⟩ : ∃ providerImpl, request.implementation provider model = some providerImpl := by
    rw [ResolveRequest.implementation]
    split
    · next hdedicated =>
      obtain ⟨baseUrl, hbaseUrl⟩ := Option.isSome_iff_exists.mp (h.baseUrl hdedicated)
      exact ⟨_, by rw [hbaseUrl]; rfl⟩
    · exact ⟨provider, (route_eq model).trans hprovider⟩
  refine ⟨{ provider, model, key := resolved.key, isPlatformKey := resolved.isPlatform, providerImpl }, ?_⟩
  exact Option.bind_eq_some_iff.mpr ⟨provider, hprovider, Option.bind_eq_some_iff.mpr ⟨providerImpl, himpl,
    Option.bind_eq_some_iff.mpr ⟨resolved, hresolved, rfl⟩⟩⟩

theorem fetched_keys (hreadable : ¬KeysUnreadable env request) : ∃ keys : Dict String ResolvedBatchKey,
    getProviderKeysBatch env ((applyPreferences (request.models env) request.providerPrefs).filterMap getProviderName) =
        .ok keys ∧
      ∀ model ∈ applyPreferences (request.models env) request.providerPrefs, ∀ provider,
        Provider.fromModelPrefix model = some provider →
          keys.lookup provider.asStr = env.resolveKey provider.asStr := by
  rw [getProviderKeysBatch]
  rw [if_neg]
  · refine ⟨_, rfl, fun model hmodel provider hprovider => Dict.lookup_ofPairs_filterMap ?_⟩
    refine List.mem_filterMap.mpr ⟨model, hmodel, ?_⟩
    rw [getProviderName, route_eq, hprovider]
    rfl
  · rintro ⟨hmissing, hunreadable⟩
    obtain ⟨slug, hslug⟩ := List.exists_mem_of_ne_nil _ hmissing
    obtain ⟨hslug, hlive⟩ := List.mem_filter.mp hslug
    obtain ⟨model, hmodel, hname⟩ := List.mem_filterMap.mp hslug
    exact hreadable ⟨by simpa using hunreadable, model, hmodel, slug, hname, by simpa using hlive⟩

theorem unfetched_keys (h : KeysUnreadable env request) : ∀ chain, resolveProviderChain env request ≠ .ok chain := by
  intro chain hchain
  obtain ⟨hunreadable, model, hmodel, slug, hname, hlive⟩ := h
  have hmissing : ((applyPreferences (request.models env) request.providerPrefs).filterMap getProviderName).filter
      (fun slug => !(env.providerKeyCache slug).any (·.live)) ≠ [] :=
    List.ne_nil_of_mem (List.mem_filter.mpr ⟨List.mem_filterMap.mpr ⟨model, hmodel, hname⟩, by rw [hlive]; rfl⟩)
  rw [resolveProviderChain, getProviderKeysBatch] at hchain
  dsimp only at hchain
  rw [if_pos ⟨hmissing, by rw [hunreadable]; rfl⟩] at hchain
  cases hchain

theorem resolveProviderChain_eq {keys : Dict String ResolvedBatchKey} (hkeys : getProviderKeysBatch env
      ((applyPreferences (request.models env) request.providerPrefs).filterMap getProviderName) = .ok keys) :
    resolveProviderChain env request =
      if (applyPreferences (request.models env) request.providerPrefs).filterMap
          (resolveCandidate env request keys) = [] then
        .error (.missingProviderKey "No provider candidates with valid keys")
      else .ok ((applyPreferences (request.models env) request.providerPrefs).filterMap
        (resolveCandidate env request keys)) := by
  rw [resolveProviderChain]
  dsimp only
  rw [hkeys]
  rfl

theorem candidate_permitted (hendpoints : EndpointsPermitted env request) {candidate : RoutedCandidate} {name : String}
    (hname : name ∈ applyPreferences (request.models env) request.providerPrefs)
    (hprovider : Provider.fromModelPrefix name = some candidate.provider)
    (husable : Usable env request candidate.provider) : ∀ prefs ∈ request.providerPrefs,
      prefs.Permits candidate.provider := by
  intro prefs hprefs
  rw [Option.mem_def.mp hprefs, applyPreferences] at hname
  obtain ⟨model, hmodel, rfl⟩ := List.mem_map.mp hname
  rcases preferredModel_cases prefs model with ⟨endpoint, hendpoint, hpermits, heq⟩ | ⟨heq, hnone⟩
  · rw [heq, fromModelPrefix_endpoint hendpoint] at hprovider
    rw [← Option.some.inj hprovider]
    exact hpermits
  · rw [heq] at hprovider
    obtain ⟨endpoint, hendpoint, hpermits⟩ := hendpoints model (mem_models.mp hmodel) _ hprovider husable prefs hprefs
    rcases hnone with hsingle | hnone
    · -- Its one endpoint is its own provider.
      have hnative := native_mem hprovider
      obtain ⟨only, honly⟩ := List.length_eq_one_iff.mp
        (Nat.le_antisymm hsingle (List.length_pos_of_mem hnative))
      rw [honly, List.mem_singleton] at hendpoint hnative
      rw [hendpoint, ← hnative] at hpermits
      exact hpermits
    · exact absurd hpermits (hnone endpoint hendpoint)

theorem endpointsPermitted_of_served (hreadable : ¬KeysUnreadable env request)
    (hserved : ∀ chain, resolveProviderChain env request = .ok chain → ∀ candidate ∈ chain,
      ∀ prefs ∈ request.providerPrefs, prefs.Permits candidate.provider ∧ prefs.Permits candidate.providerImpl) :
    EndpointsPermitted env request := by
  intro model hnames provider hprovider husable prefs hprefs
  obtain ⟨keys, hfetched, hkeys⟩ := fetched_keys hreadable
  rcases preferredModel_cases prefs model with ⟨endpoint, hendpoint, hpermits, -⟩ | ⟨heq, -⟩
  · exact ⟨endpoint, hendpoint, hpermits⟩
  · have hmem : model ∈ applyPreferences (request.models env) request.providerPrefs := by
      rw [Option.mem_def.mp hprefs, applyPreferences]
      exact List.mem_map.mpr ⟨model, mem_models.mpr hnames, heq⟩
    obtain ⟨candidate, hcandidate⟩ :=
      resolveCandidate_of_usable (hkeys model hmem provider hprovider) hprovider husable
    have hchain : candidate ∈ (applyPreferences (request.models env) request.providerPrefs).filterMap
        (resolveCandidate env request keys) := List.mem_filterMap.mpr ⟨model, hmem, hcandidate⟩
    have hok := (resolveProviderChain_eq hfetched).trans (if_neg (List.ne_nil_of_mem hchain))
    obtain ⟨hown, -, -⟩ := resolveCandidate_ok (hkeys model hmem) hcandidate
    rw [hprovider] at hown
    have hpermits := (hserved _ hok candidate hchain prefs hprefs).1
    rw [← Option.some.inj hown] at hpermits
    exact ⟨_, native_mem hprovider, hpermits⟩

end Resolve

/-- The preferences are kept exactly if the keys cannot be read, or every model of the request whose own provider is
    usable has an endpoint that they permit. -/
theorem preferencesKept_iff (env : ResolveEnv) (request : ResolveRequest) :
    PreferencesKept env request ↔ KeysUnreadable env request ∨ EndpointsPermitted env request := by
  constructor
  · intro h
    by_cases hunreadable : KeysUnreadable env request
    · exact .inl hunreadable
    · exact .inr (endpointsPermitted_of_served hunreadable h.served)
  · intro h
    by_cases hunreadable : KeysUnreadable env request
    · exact ⟨fun chain hchain => absurd hchain (unfetched_keys hunreadable chain),
        fun chain hchain => absurd hchain (unfetched_keys hunreadable chain)⟩
    · have hendpoints := h.resolve_left hunreadable
      obtain ⟨keys, hfetched, hkeys⟩ := fetched_keys hunreadable
      have hserved : ∀ candidate ∈ (applyPreferences (request.models env) request.providerPrefs).filterMap
          (resolveCandidate env request keys), ∀ prefs ∈ request.providerPrefs,
            prefs.Permits candidate.provider ∧ prefs.Permits candidate.providerImpl := by
        intro candidate hcandidate prefs hprefs
        obtain ⟨name, hname, hcandidate⟩ := List.mem_filterMap.mp hcandidate
        obtain ⟨hprovider, himpl, husable⟩ := resolveCandidate_ok (hkeys name hname) hcandidate
        have hpermits := candidate_permitted hendpoints hname hprovider husable prefs hprefs
        exact ⟨hpermits, himpl ▸ hpermits⟩
      have hchains : ∀ chain, resolveProviderChain env request = .ok chain → chain ≠ [] ∧
          chain = (applyPreferences (request.models env) request.providerPrefs).filterMap
            (resolveCandidate env request keys) := by
        intro chain hchain
        rw [resolveProviderChain_eq hfetched] at hchain
        split at hchain
        · cases hchain
        · next hne =>
          cases hchain
          exact ⟨hne, rfl⟩
      refine ⟨fun chain hchain candidate hcandidate => ?_, fun chain hchain => ?_⟩
      · obtain ⟨-, rfl⟩ := hchains chain hchain
        exact hserved candidate hcandidate
      · obtain ⟨hne, rfl⟩ := hchains chain hchain
        obtain ⟨candidate, hcandidate⟩ := List.exists_mem_of_ne_nil _ hne
        exact ⟨candidate, hcandidate, fun prefs hprefs => (hserved candidate hcandidate prefs hprefs).1⟩

/-! ### A model of one provider -/

def allKeys : ResolveEnv where
  defaultKey _ := some "key"

/-- Only Anthropic may serve a model that OpenAI alone has. -/
def onlyAnthropic : ResolveRequest where
  primaryModel := "gpt-4o"
  providerPrefs := some { only := some ["anthropic"] }

theorem preferences_not_kept : ¬PreferencesKept allKeys onlyAnthropic := fun h => by
  have hchain : (resolveProviderChain allKeys onlyAnthropic).toOption.map (·.map (·.provider)) = some [.openAi] := by
    decide +kernel
  obtain ⟨chain, hok, hproviders⟩ := Option.map_eq_some_iff.mp hchain
  obtain ⟨candidate, hcandidate, hprovider⟩ : ∃ candidate ∈ chain, candidate.provider = Provider.openAi :=
    List.mem_map.mp (hproviders ▸ List.mem_cons_self)
  have hpermits := (h.served chain (ok_of_toOption hok) candidate hcandidate _ rfl).1
  rw [hprovider] at hpermits
  exact absurd (hpermits.only ["anthropic"] rfl (by decide)) (by decide)

end Reiver.Flow
