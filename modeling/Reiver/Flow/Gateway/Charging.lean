import Reiver.Flow.Gateway.Chat
import Reiver.Flow.Gateway.Streaming

/-! # Who pays for a response

The session budget and the meter service after a request of either kind. The non-streaming handler adds the first
answer to the budget and reports what it finally returns, by the key of the first candidate; the streaming one works
from the completion summary, by the key of the candidate that served. A client that leaves takes the accounts with it
that are not made yet. Every answer is charged once, at its cost and to its payer, exactly where these agree
(`charged_once_iff`). -/

namespace Reiver.Flow

/-- The prices of the cost calculator, and the estimate for a request whose stream reports no tokens. Nothing costs
    nothing. -/
structure Pricing where
  cost : (provider model : String) → Usage → Nat
  estimateInputTokens : ChatCompletionRequest → Nat
  cost_zero : ∀ provider model, cost provider model {} = 0

/-- Which call of a request an answer came from. -/
inductive AnswerSource where
  | execution
  | contractRetry
deriving DecidableEq

/-- What is added to a budget or reported to the meter service, with the answer it is for. -/
structure Charge where
  source : AnswerSource
  amount : Nat

structure Accounts where
  budget : List Charge := []
  meter : List Charge := []

/-- The amounts that are charged for an answer. -/
def amounts (charges : List Charge) (source : AnswerSource) : List Nat :=
  (charges.filter (·.source = source)).map (·.amount)

/-- An answer that a provider gave, with the candidate that served it. -/
structure Obtained where
  source : AnswerSource
  candidate : ProviderCandidate
  usage : Usage

def Obtained.cost (pricing : Pricing) (o : Obtained) : Nat :=
  pricing.cost o.candidate.provider.asStr o.candidate.model o.usage

/-- Where the handler waits once it has an answer: for the budget, which may be written by then, or for the guardrails
    and the second call. It is dropped there if the client leaves. -/
inductive HandlerAwait where
  | budget (written : Bool)
  | verdict

/-- Where a streamed answer waits: for the client to take the next chunk, the end of the stream included, or for the
    budget. -/
inductive StreamAwait where
  | chunk (received : Nat)
  | budget (written : Bool)

/-! ### The non-streaming handler -/

def ChatContext.budgetActive (ctx : ChatContext) : Bool := ctx.sessionBudgetUsd.isSome && ctx.sessionId != ""

section Handler
variable (env : GatewayEnv) (pricing : Pricing) (ctx : ChatContext)

/-- The price for the session budget: cached tokens are not told apart. -/
def budgetCost (provider model : String) (usage : Usage) : Nat :=
  pricing.cost provider model { usage with cachedTokens := 0 }

def incrementSessionBudget (source : AnswerSource) (provider model : String) (usage : Usage) : List Charge :=
  if ctx.budgetActive && decide (0 < budgetCost pricing provider model usage) then
    [⟨source, budgetCost pricing provider model usage⟩]
  else []

def processBilling (isPlatformKey : Bool) (source : AnswerSource) (provider model : String) (usage : Usage) :
    List Charge :=
  if isPlatformKey && ctx.orgId.isSome && decide (0 < pricing.cost provider model usage) then
    [⟨source, pricing.cost provider model usage⟩]
  else []

/-- The answer of the second call, if it is made and answered. -/
def secondAnswer (outcomes : ProviderOutcomes) : Option (FallbackResult ChatCompletionResponse) :=
  match guarded env ctx outcomes with
  | .error _ => none
  | .ok response =>
    match contractViolation env ctx response with
    | none => none
    | some violation =>
      match violation.action with
      | .logOnly => none
      | .retry => (contractRetry env ctx outcomes).toOption
      | .retryThenPassthrough => (contractRetry env ctx outcomes).toOption
      | .error => none

/-- What is returned, with the call it comes from. -/
def delivered (outcomes : ProviderOutcomes) : Except GatewayError (AnswerSource × ChatCompletionResponse) :=
  match guarded env ctx outcomes with
  | .error error => .error error
  | .ok response =>
    match contractVerdict env ctx outcomes response with
    | .keep => .ok (.execution, response)
    | .replace answer => .ok (.contractRetry, answer)
    | .fail error => .error error

/-- An error is recorded without tokens, and everything by the model of the request. -/
def chatMeter (outcomes : ProviderOutcomes) (fb : FallbackResult ChatCompletionResponse) : List Charge :=
  match delivered env ctx outcomes with
  | .ok (source, response) => processBilling pricing ctx ctx.primary.isPlatformKey source fb.providerUsed.asStr
    ctx.request.model response.usage
  | .error _ =>
    processBilling pricing ctx ctx.primary.isPlatformKey .execution fb.providerUsed.asStr ctx.request.model {}

def chatAccounts (outcomes : ProviderOutcomes) (left : Option HandlerAwait) : Accounts :=
  match execution env ctx outcomes with
  | .error _ =>
    { meter := processBilling pricing ctx ctx.primary.isPlatformKey .execution ctx.primary.provider.asStr
        ctx.request.model {} }
  | .ok fb =>
    let budget := incrementSessionBudget pricing ctx .execution fb.providerUsed.asStr fb.modelUsed fb.result.usage
    match left with
    | some (.budget written) => { budget := if written then budget else [] }
    | some .verdict => { budget }
    | none => { budget, meter := chatMeter env pricing ctx outcomes fb }

/-- A client that leaves does not wait for the second call. -/
def chatObtained (outcomes : ProviderOutcomes) (left : Option HandlerAwait) : List Obtained :=
  match execution env ctx outcomes with
  | .error _ => []
  | .ok fb =>
    ⟨.execution, fb.candidate, fb.result.usage⟩ ::
      if left.isSome then []
      else (secondAnswer env ctx outcomes).toList.map fun second =>
        ⟨.contractRetry, second.candidate, second.result.usage⟩

/-! ### The streaming path -/

/-- The tokens of a stream without an error, estimated if none are reported. -/
def streamingUsage (request : ChatCompletionRequest) (usage : Option Usage) : Usage :=
  match usage with
  | some u =>
    if 0 < u.promptTokens ∨ 0 < u.completionTokens then u
    else { promptTokens := pricing.estimateInputTokens request, cachedTokens := u.cachedTokens }
  | none => { promptTokens := pricing.estimateInputTokens request }

/-- The request as it is sent to a candidate. -/
def ChatContext.callRequest (ctx : ChatContext) (candidate : ProviderCandidate) : ChatCompletionRequest :=
  { ctx.request with model := candidate.model }

def summaryUsage (candidate : ProviderCandidate) (summary : StreamCompletionSummary) : Usage :=
  match summary.error with
  | some _ => {}
  | none => streamingUsage pricing (ctx.callRequest candidate) summary.usage

/-- The end of the stream makes the accounts, the meter before the budget. -/
def streamAccounts (answers : Answers ChunkStream) (left : Option StreamAwait) : Accounts :=
  match executeChain env.maxRetries answers ctx.chain with
  | .error _ => {}
  | .ok fb =>
    let summary := completionSummary env.filters ctx.policy fb.result
    let budget := match summary.usage with
      | some usage => incrementSessionBudget pricing ctx .execution fb.providerUsed.asStr summary.model usage
      | none => []
    let meter := processBilling pricing ctx fb.candidate.isPlatformKey .execution fb.providerUsed.asStr
      fb.candidate.model (summaryUsage pricing ctx fb.candidate summary)
    match left with
    | some (.chunk _) => {}
    | some (.budget written) => { budget := if written then budget else [], meter }
    | none => { budget, meter }

def receivedChunks (stream : ChunkStream) : Option StreamAwait → ChunkStream
  | some (.chunk received) => stream.take received
  | _ => stream

/-- A stream is an answer as long as the provider sends no error. Its usage is what the provider reports, or else the
    estimate. -/
def streamObtained (answers : Answers ChunkStream) (left : Option StreamAwait) : List Obtained :=
  match executeChain env.maxRetries answers ctx.chain with
  | .error _ => []
  | .ok fb =>
    let stream := receivedChunks fb.result left
    if stream.all (·.isOk) then
      [⟨.execution, fb.candidate,
        streamingUsage pricing (ctx.callRequest fb.candidate) ((streamedReport stream).map Prod.snd)⟩]
    else []

end Handler

/-! ### What is promised -/

/-- A request that is not answered from the cache, and where its client leaves, if it does. -/
inductive ChatRun where
  | answered (outcomes : ProviderOutcomes) (left : Option HandlerAwait)
  | streamed (answers : Answers ChunkStream) (left : Option StreamAwait)

namespace ChatRun
variable (env : GatewayEnv) (pricing : Pricing) (ctx : ChatContext)

def accounts : ChatRun → Accounts
  | .answered outcomes left => chatAccounts env pricing ctx outcomes left
  | .streamed answers left => streamAccounts env pricing ctx answers left

def obtained : ChatRun → List Obtained
  | .answered outcomes left => chatObtained env ctx outcomes left
  | .streamed answers left => streamObtained env pricing ctx answers left

/-- The cost of every answer goes to an active budget once, and to the meter once or never, by the key that it was
    served with. -/
def ChargedOnce (run : ChatRun) : Prop :=
  ∀ o ∈ run.obtained env pricing ctx,
    (ctx.budgetActive = true → amounts (run.accounts env pricing ctx).budget o.source = [o.cost pricing]) ∧
    amounts (run.accounts env pricing ctx).meter o.source = if o.candidate.isPlatformKey then [o.cost pricing] else []

/-- The organization is known, and what is reported has a price. -/
def Billable (provider model : String) (usage : Usage) : Prop :=
  ctx.orgId.isSome = true ∧ 0 < pricing.cost provider model usage

/-- What is added to the budget is the cost, and something. -/
def BudgetPriced (provider model : String) (usage : Usage) (cost : Nat) : Prop :=
  0 < cost ∧ budgetCost pricing provider model usage = cost

/-- Neither the guardrails nor the output contract turn the first answer into an error, or replace it. -/
def Kept (outcomes : ProviderOutcomes) : Prop :=
  ∃ response, guarded env ctx outcomes = .ok response ∧ contractVerdict env ctx outcomes response = .keep

/-- The second answer takes the place of the first. -/
def Replaced (outcomes : ProviderOutcomes) (answer : ChatCompletionResponse) : Prop :=
  ∃ response, guarded env ctx outcomes = .ok response ∧ contractVerdict env ctx outcomes response = .replace answer

/-- What the budget takes of the first answer. -/
def FirstPriced (fb : FallbackResult ChatCompletionResponse) : Prop :=
  BudgetPriced pricing fb.providerUsed.asStr fb.modelUsed fb.result.usage
    (pricing.cost fb.providerUsed.asStr fb.modelUsed fb.result.usage)

/-- A client that stays. Without a second answer, the key of the candidate that served is a platform key exactly if the
    first candidate's is, and the answer is kept and billable; the model of the request has the price of the model that
    answered. With one, there is no budget, the first answer came on a customer's key, and on a platform key the second
    answer takes its place, is billable and has the price of its own provider. -/
def AnswerAccountable (outcomes : ProviderOutcomes) (fb : FallbackResult ChatCompletionResponse) : Prop :=
  match secondAnswer env ctx outcomes with
  | none =>
    (ctx.budgetActive = true → FirstPriced pricing fb) ∧
    (fb.candidate.isPlatformKey = true ↔ ctx.primary.isPlatformKey = true ∧ Kept env ctx outcomes ∧
      Billable pricing ctx fb.providerUsed.asStr ctx.request.model fb.result.usage) ∧
    (fb.candidate.isPlatformKey = true → pricing.cost fb.providerUsed.asStr ctx.request.model fb.result.usage =
      pricing.cost fb.providerUsed.asStr fb.modelUsed fb.result.usage)
  | some second => ctx.budgetActive = false ∧ fb.candidate.isPlatformKey = false ∧
    (ctx.primary.isPlatformKey = true → Replaced env ctx outcomes second.result ∧
      Billable pricing ctx fb.providerUsed.asStr ctx.request.model second.result.usage ∧
      pricing.cost fb.providerUsed.asStr ctx.request.model second.result.usage =
        pricing.cost ctx.primary.provider.asStr ctx.request.model second.result.usage)

/-- What the end of a stream charges: the report that is summed up, if the client stays for it. -/
def chargedReport (stream : ChunkStream) : Option StreamAwait → Option (String × Usage)
  | some (.chunk _) => none
  | _ => summedReport env.filters ctx.policy [] stream

/-- The budget is written, whether the client waits for it or not. -/
def writesBudget : Option StreamAwait → Bool
  | some (.budget written) => written
  | _ => true

/-- A stream that is to be charged is taken to its end, reports its usage before a guardrail fires, and its cost is that
    of the model it reports and of all its tokens; on a platform key it is billable. -/
def StreamAccountable (fb : FallbackResult ChunkStream) (left : Option StreamAwait) : Prop :=
  match chargedReport env ctx fb.result left with
  | none => ctx.budgetActive = false ∧ fb.candidate.isPlatformKey = false
  | some (model, usage) =>
    let cost := pricing.cost fb.providerUsed.asStr fb.candidate.model
      (streamingUsage pricing (ctx.callRequest fb.candidate) (some usage))
    (ctx.budgetActive = true → writesBudget left = true ∧ BudgetPriced pricing fb.providerUsed.asStr model usage cost) ∧
      (fb.candidate.isPlatformKey = true → ctx.orgId.isSome = true ∧ 0 < cost)

/-- A client that leaves the handler has an answer on a customer's key, and a budget that is written. -/
def Accountable : ChatRun → Prop
  | .answered outcomes left => ∀ fb, execution env ctx outcomes = .ok fb →
    match left with
    | none => AnswerAccountable env pricing ctx outcomes fb
    | some (.budget written) =>
      (ctx.budgetActive = true → written = true ∧ FirstPriced pricing fb) ∧ fb.candidate.isPlatformKey = false
    | some .verdict => (ctx.budgetActive = true → FirstPriced pricing fb) ∧ fb.candidate.isPlatformKey = false
  | .streamed answers left => ∀ fb, executeChain env.maxRetries answers ctx.chain = .ok fb →
    (receivedChunks fb.result left).all (·.isOk) = true → StreamAccountable env pricing ctx fb left

instance (provider model : String) (usage : Usage) : Decidable (Billable pricing ctx provider model usage) :=
  inferInstanceAs (Decidable (_ ∧ _))

end ChatRun

/-! ### What the accounts hold -/

section Accounts
variable {env : GatewayEnv} {pricing : Pricing} {ctx : ChatContext} {outcomes : ProviderOutcomes}
  {response answer : ChatCompletionResponse} {fb : FallbackResult ChatCompletionResponse} {source : AnswerSource}
  {provider model : String} {usage : Usage} {cost : Nat}

open ChatRun

theorem amounts_nil (s : AnswerSource) : amounts [] s = [] := rfl

theorem amounts_incrementSessionBudget (hactive : ctx.budgetActive = true) :
    amounts (incrementSessionBudget pricing ctx source provider model usage) source = [cost] ↔
      BudgetPriced pricing provider model usage cost := by
  unfold incrementSessionBudget BudgetPriced
  rw [hactive, Bool.true_and]
  by_cases hcost : 0 < budgetCost pricing provider model usage
  · rw [if_pos (decide_eq_true hcost)]
    simp only [amounts, List.filter_cons, decide_true, if_true, List.filter_nil, List.map_cons, List.map_nil,
      List.cons.injEq, and_true]
    exact ⟨fun h => ⟨h ▸ hcost, h⟩, fun h => h.2⟩
  · rw [if_neg fun h => hcost (of_decide_eq_true h)]
    exact iff_of_false nofun fun h => hcost (h.2 ▸ h.1)

theorem amounts_processBilling {isPlatformKey : Bool} (s : AnswerSource) :
    amounts (processBilling pricing ctx isPlatformKey source provider model usage) s =
      if (isPlatformKey = true ∧ Billable pricing ctx provider model usage) ∧ source = s then
        [pricing.cost provider model usage]
      else [] := by
  have hbills : (isPlatformKey && ctx.orgId.isSome && decide (0 < pricing.cost provider model usage)) = true ↔
      isPlatformKey = true ∧ Billable pricing ctx provider model usage := by
    simp [Billable, and_assoc]
  unfold processBilling
  by_cases h : isPlatformKey = true ∧ Billable pricing ctx provider model usage
  · rw [if_pos (hbills.mpr h)]
    by_cases hs : source = s
    · simp [amounts, h, hs]
    · simp [amounts, hs]
  · rw [if_neg (mt hbills.mp h), if_neg fun hall => h hall.1]
    rfl

theorem processBilling_zero {isPlatformKey : Bool} :
    processBilling pricing ctx isPlatformKey source provider model {} = [] := by
  simp [processBilling, pricing.cost_zero]

theorem guarded_usage (hexec : execution env ctx outcomes = .ok fb) (h : guarded env ctx outcomes = .ok response) :
    response.usage = fb.result.usage := by
  rw [guarded, hexec, Except.map] at h
  exact applyOutputGuardrails_usage h

theorem ChatRun.Kept.not_replaced (h : Kept env ctx outcomes) : ¬Replaced env ctx outcomes answer := by
  rintro ⟨response, hguarded, hreplace⟩
  obtain ⟨response', hguarded', hkeep⟩ := h
  cases hguarded.symm.trans hguarded'
  cases hreplace.symm.trans hkeep

theorem retryVerdict_replace {violation : ContractViolation}
    {retryFb : Except GatewayError (FallbackResult ChatCompletionResponse)}
    (h : retryVerdict env violation retryFb = .replace answer) :
    ∃ second, retryFb = .ok second ∧ second.result = answer := by
  unfold retryVerdict at h
  split at h
  · next second =>
    split at h
    · cases h
      exact ⟨second, rfl, rfl⟩
    · split at h <;> cases h
  · split at h <;> cases h

theorem secondAnswer_of_replace (hguarded : guarded env ctx outcomes = .ok response)
    (h : contractVerdict env ctx outcomes response = .replace answer) :
    ∃ second, secondAnswer env ctx outcomes = some second ∧ second.result = answer := by
  unfold contractVerdict at h
  unfold secondAnswer
  rw [hguarded]
  dsimp only
  cases hviolation : contractViolation env ctx response with
  | none =>
    rw [hviolation] at h
    cases h
  | some violation =>
    rw [hviolation] at h
    cases haction : violation.action with
    | logOnly =>
      simp only [haction] at h
      cases h
    | error =>
      simp only [haction] at h
      cases h
    | retry =>
      simp only [haction] at h ⊢
      obtain ⟨second, hretry, hresult⟩ := retryVerdict_replace h
      exact ⟨second, congrArg Except.toOption hretry, hresult⟩
    | retryThenPassthrough =>
      simp only [haction] at h ⊢
      obtain ⟨second, hretry, hresult⟩ := retryVerdict_replace h
      exact ⟨second, congrArg Except.toOption hretry, hresult⟩

theorem secondAnswer_candidate {second : FallbackResult ChatCompletionResponse}
    (h : secondAnswer env ctx outcomes = some second) : second.candidate = ctx.retryCandidate := by
  have hretry : contractRetry env ctx outcomes = .ok second := by
    have htoOption : ∀ {e : Except GatewayError (FallbackResult ChatCompletionResponse)},
        e.toOption = some second → e = .ok second := by
      intro e he
      cases e with
      | error error => cases he
      | ok value =>
        cases he
        rfl
    unfold secondAnswer at h
    split at h
    · cases h
    · split at h
      · cases h
      · split at h
        · cases h
        · exact htoOption h
        · exact htoOption h
        · cases h
  obtain ⟨k, hk, -⟩ := executeChain_ok hretry
  cases k with
  | zero => exact (Option.some.inj hk).symm
  | succ k => cases hk

theorem delivered_cases (env : GatewayEnv) (ctx : ChatContext) (outcomes : ProviderOutcomes) :
    (∃ response, guarded env ctx outcomes = .ok response ∧ Kept env ctx outcomes ∧
      delivered env ctx outcomes = .ok (.execution, response)) ∨
    (∃ second, secondAnswer env ctx outcomes = some second ∧ Replaced env ctx outcomes second.result ∧
      delivered env ctx outcomes = .ok (.contractRetry, second.result)) ∨
    ((∃ error, delivered env ctx outcomes = .error error) ∧ ¬Kept env ctx outcomes ∧
      ∀ answer, ¬Replaced env ctx outcomes answer) := by
  unfold delivered
  cases hguarded : guarded env ctx outcomes with
  | error error =>
    refine .inr (.inr ⟨⟨error, rfl⟩, ?_, ?_⟩)
    · rintro ⟨response, h, -⟩
      cases hguarded.symm.trans h
    · rintro answer ⟨response, h, -⟩
      cases hguarded.symm.trans h
  | ok response =>
    dsimp only
    cases hverdict : contractVerdict env ctx outcomes response with
    | keep => exact .inl ⟨response, rfl, ⟨response, hguarded, hverdict⟩, rfl⟩
    | replace answer =>
      obtain ⟨second, hsecond, rfl⟩ := secondAnswer_of_replace hguarded hverdict
      exact .inr (.inl ⟨second, hsecond, ⟨response, hguarded, hverdict⟩, rfl⟩)
    | fail error =>
      refine .inr (.inr ⟨⟨error, rfl⟩, ?_, ?_⟩)
      · rintro ⟨response', h, hkeep⟩
        cases hguarded.symm.trans h
        cases hverdict.symm.trans hkeep
      · rintro answer ⟨response', h, hreplace⟩
        cases hguarded.symm.trans h
        cases hverdict.symm.trans hreplace

/-! ### Charged once -/

theorem ite_singleton_eq {p : Prop} [Decidable p] {amount : Nat} :
    (if p then [amount] else []) = [cost] ↔ p ∧ amount = cost := by
  by_cases hp : p <;> simp [hp]

theorem ite_singleton_eq_ite {p : Prop} [Decidable p] {b : Bool} {amount : Nat} :
    ((if p then [amount] else []) = if b then [cost] else []) ↔ (b = true ↔ p) ∧ (b = true → amount = cost) := by
  by_cases hp : p <;> cases b <;> simp [hp]

theorem chatMeter_of_kept (hexec : execution env ctx outcomes = .ok fb)
    (hguarded : guarded env ctx outcomes = .ok response)
    (hdelivered : delivered env ctx outcomes = .ok (.execution, response)) :
    chatMeter env pricing ctx outcomes fb = processBilling pricing ctx ctx.primary.isPlatformKey .execution
      fb.providerUsed.asStr ctx.request.model fb.result.usage := by
  unfold chatMeter
  rw [hdelivered]
  dsimp only
  rw [guarded_usage hexec hguarded]

theorem chatMeter_of_replaced (hdelivered : delivered env ctx outcomes = .ok (.contractRetry, answer)) :
    chatMeter env pricing ctx outcomes fb = processBilling pricing ctx ctx.primary.isPlatformKey .contractRetry
      fb.providerUsed.asStr ctx.request.model answer.usage := by
  unfold chatMeter
  rw [hdelivered]

theorem chatMeter_of_error {error : GatewayError} (hdelivered : delivered env ctx outcomes = .error error) :
    chatMeter env pricing ctx outcomes fb = [] := by
  unfold chatMeter
  rw [hdelivered]
  exact processBilling_zero

theorem forall_obtained {accounts : Accounts} {obtained : List Obtained} :
    (∀ o ∈ obtained, (ctx.budgetActive = true → amounts accounts.budget o.source = [o.cost pricing]) ∧
        amounts accounts.meter o.source = if o.candidate.isPlatformKey then [o.cost pricing] else []) ↔
      (ctx.budgetActive = true → ∀ o ∈ obtained, amounts accounts.budget o.source = [o.cost pricing]) ∧
        ∀ o ∈ obtained, amounts accounts.meter o.source = if o.candidate.isPlatformKey then [o.cost pricing]
          else [] := by
  rw [forall₂_and]
  exact and_congr_left fun _ => ⟨fun h hactive o ho => h o ho hactive, fun h o ho hactive => h hactive o ho⟩

theorem chatAccounts_stays (hexec : execution env ctx outcomes = .ok fb) :
    chatAccounts env pricing ctx outcomes none =
      { budget := incrementSessionBudget pricing ctx .execution fb.providerUsed.asStr fb.modelUsed fb.result.usage
        meter := chatMeter env pricing ctx outcomes fb } := by
  rw [chatAccounts, hexec]

theorem chargedOnce_first (hexec : execution env ctx outcomes = .ok fb)
    (hsecond : secondAnswer env ctx outcomes = none) :
    ChargedOnce env pricing ctx (.answered outcomes none) ↔ AnswerAccountable env pricing ctx outcomes fb := by
  have hobtained : chatObtained env ctx outcomes none = [⟨.execution, fb.candidate, fb.result.usage⟩] := by
    rw [chatObtained, hexec, hsecond]
    rfl
  rw [ChargedOnce, ChatRun.obtained, ChatRun.accounts, hobtained, chatAccounts_stays hexec, List.forall_mem_singleton,
    AnswerAccountable, hsecond]
  refine and_congr (imp_congr_right fun hactive => amounts_incrementSessionBudget hactive) ?_
  dsimp only
  rcases delivered_cases env ctx outcomes with ⟨response, hguarded, hkept, hdelivered⟩ |
    ⟨second, hsome, -⟩ | ⟨⟨error, hdelivered⟩, hkept, -⟩
  · rw [chatMeter_of_kept hexec hguarded hdelivered, amounts_processBilling, ite_singleton_eq_ite]
    simp only [and_true, hkept, true_and]
    exact Iff.rfl
  · cases hsecond.symm.trans hsome
  · rw [chatMeter_of_error hdelivered, amounts_nil]
    cases fb.candidate.isPlatformKey <;> simp [hkept]

/-- A second answer is never in the budget. -/
theorem chargedOnce_second {second : FallbackResult ChatCompletionResponse}
    (hexec : execution env ctx outcomes = .ok fb) (hsecond : secondAnswer env ctx outcomes = some second) :
    ChargedOnce env pricing ctx (.answered outcomes none) ↔ AnswerAccountable env pricing ctx outcomes fb := by
  have hcandidate := secondAnswer_candidate hsecond
  have hobtained : chatObtained env ctx outcomes none = [⟨.execution, fb.candidate, fb.result.usage⟩,
      ⟨.contractRetry, ctx.retryCandidate, second.result.usage⟩] := by
    rw [chatObtained, hexec, hsecond, ← hcandidate]
    rfl
  have hbudget : amounts (incrementSessionBudget pricing ctx .execution fb.providerUsed.asStr fb.modelUsed
      fb.result.usage) .contractRetry = [] := by
    unfold incrementSessionBudget
    split <;> rfl
  rw [ChargedOnce, ChatRun.obtained, ChatRun.accounts, hobtained, chatAccounts_stays hexec, forall_obtained,
    AnswerAccountable, hsecond]
  simp only [List.forall_mem_cons, hbudget]
  refine and_congr ?_ ?_
  · cases ctx.budgetActive <;> simp
  · have hkey : ctx.retryCandidate.isPlatformKey = ctx.primary.isPlatformKey := rfl
    rw [hkey]
    rcases delivered_cases env ctx outcomes with ⟨response, hguarded, hkept, hdelivered⟩ |
      ⟨second', hsome, hreplaced, hdelivered⟩ | ⟨⟨error, hdelivered⟩, hkept, hreplaced⟩
    · rw [chatMeter_of_kept hexec hguarded hdelivered, amounts_processBilling, amounts_processBilling]
      cases fb.candidate.isPlatformKey <;> cases ctx.primary.isPlatformKey <;> simp [hkept.not_replaced]
    · cases hsecond.symm.trans hsome
      rw [chatMeter_of_replaced hdelivered, amounts_processBilling, amounts_processBilling, ite_singleton_eq_ite]
      cases fb.candidate.isPlatformKey <;> cases ctx.primary.isPlatformKey <;> simp [hreplaced]
      exact ite_singleton_eq
    · rw [chatMeter_of_error hdelivered, amounts_nil, amounts_nil]
      cases fb.candidate.isPlatformKey <;> cases ctx.primary.isPlatformKey <;> simp [hreplaced]

theorem chargedOnce_left {await : HandlerAwait} {written : Bool} (hexec : execution env ctx outcomes = .ok fb)
    (haccounts : chatAccounts env pricing ctx outcomes (some await) =
      { budget := if written then
          incrementSessionBudget pricing ctx .execution fb.providerUsed.asStr fb.modelUsed fb.result.usage
        else [] }) :
    ChargedOnce env pricing ctx (.answered outcomes (some await)) ↔
      (ctx.budgetActive = true → written = true ∧ FirstPriced pricing fb) ∧ fb.candidate.isPlatformKey = false := by
  have hobtained : chatObtained env ctx outcomes (some await) = [⟨.execution, fb.candidate, fb.result.usage⟩] := by
    rw [chatObtained, hexec]
    rfl
  rw [ChargedOnce, ChatRun.obtained, ChatRun.accounts, hobtained, haccounts, List.forall_mem_singleton]
  refine and_congr (imp_congr_right fun hactive => ?_) ?_
  · cases written with
    | false => simp [amounts_nil]
    | true => exact (amounts_incrementSessionBudget hactive).trans (and_iff_right rfl).symm
  · dsimp only
    rw [amounts_nil]
    cases fb.candidate.isPlatformKey <;> simp

theorem chargedOnce_answered {left : Option HandlerAwait} (hexec : execution env ctx outcomes = .ok fb) :
    ChargedOnce env pricing ctx (.answered outcomes left) ↔ Accountable env pricing ctx (.answered outcomes left) := by
  have hcond : ∀ {P : FallbackResult ChatCompletionResponse → Prop},
      (∀ fb', execution env ctx outcomes = .ok fb' → P fb') ↔ P fb := fun {P} =>
    ⟨fun h => h fb hexec, fun h fb' hfb' => by cases hexec.symm.trans hfb'; exact h⟩
  rw [Accountable, hcond]
  cases left with
  | none =>
    cases hsecond : secondAnswer env ctx outcomes with
    | none => exact chargedOnce_first hexec hsecond
    | some second => exact chargedOnce_second hexec hsecond
  | some await =>
    cases await with
    | budget written => exact chargedOnce_left hexec (by rw [chatAccounts, hexec])
    | verdict =>
      have hleft := @chargedOnce_left env pricing ctx outcomes fb .verdict true hexec (by rw [chatAccounts, hexec]; rfl)
      simpa only [true_and] using hleft

section Streamed
variable {answers : Answers ChunkStream} {served : FallbackResult ChunkStream} {left : Option StreamAwait}

/-- What a report that is summed up adds to the accounts. -/
def reportAccounts (pricing : Pricing) (ctx : ChatContext) (served : FallbackResult ChunkStream) (writes : Bool)
    (model : String) (usage : Usage) : Accounts where
  budget :=
    if writes then incrementSessionBudget pricing ctx .execution served.providerUsed.asStr model usage else []
  meter := processBilling pricing ctx served.candidate.isPlatformKey .execution served.providerUsed.asStr
    served.candidate.model (streamingUsage pricing (ctx.callRequest served.candidate) (some usage))

theorem summaryUsage_of_error {candidate : ProviderCandidate} {summary : StreamCompletionSummary}
    (h : summary.error.isSome = true) : summaryUsage pricing ctx candidate summary = {} := by
  obtain ⟨error, herror⟩ := Option.isSome_iff_exists.mp h
  rw [summaryUsage, herror]

theorem completed_eq (hok : served.result.all (·.isOk) = true) (writes : Bool) :
    let summary := completionSummary env.filters ctx.policy served.result
    let budget := match summary.usage with
      | some usage =>
        incrementSessionBudget pricing ctx .execution served.providerUsed.asStr summary.model usage
      | none => []
    let meter := processBilling pricing ctx served.candidate.isPlatformKey .execution served.providerUsed.asStr
      served.candidate.model (summaryUsage pricing ctx served.candidate summary)
    ({ budget := if writes then budget else [], meter } : Accounts) =
      match summedReport env.filters ctx.policy [] served.result with
      | none => {}
      | some (model, usage) => reportAccounts pricing ctx served writes model usage := by
  have hsums : (completionSummary env.filters ctx.policy served.result).Sums _ := summary_of_ok hok
  dsimp only
  cases hreport : summedReport env.filters ctx.policy [] served.result with
  | none =>
    obtain ⟨herror, husage⟩ := hreport ▸ hsums
    simp only [husage, summaryUsage_of_error herror, processBilling_zero, ite_self]
  | some report =>
    have hsummary : completionSummary env.filters ctx.policy served.result = _ := hreport ▸ hsums
    rw [hsummary]
    rfl

theorem streamAccounts_eq (hexec : executeChain env.maxRetries answers ctx.chain = .ok served)
    (hok : (receivedChunks served.result left).all (·.isOk) = true) :
    streamAccounts env pricing ctx answers left = match chargedReport env ctx served.result left with
      | none => {}
      | some (model, usage) => reportAccounts pricing ctx served (writesBudget left) model usage := by
  rw [streamAccounts, hexec]
  cases left with
  | none => exact completed_eq hok true
  | some await =>
    cases await with
    | chunk received => rfl
    | budget written => exact completed_eq hok written

theorem streamedReport_of_charged {report : String × Usage}
    (h : chargedReport env ctx served.result left = some report) :
    streamedReport (receivedChunks served.result left) = some report := by
  have hsummed : ∀ {stream : ChunkStream}, summedReport env.filters ctx.policy [] stream = some report →
      streamedReport stream = some report := by
    intro stream hsome
    rw [summedReport] at hsome
    split at hsome
    · cases hsome
    · exact hsome
  cases left with
  | none => exact hsummed h
  | some await =>
    cases await with
    | chunk received => cases h
    | budget written => exact hsummed h

theorem chargedOnce_streamed (hexec : executeChain env.maxRetries answers ctx.chain = .ok served)
    (hok : (receivedChunks served.result left).all (·.isOk) = true) :
    ChargedOnce env pricing ctx (.streamed answers left) ↔ StreamAccountable env pricing ctx served left := by
  have hobtained : streamObtained env pricing ctx answers left = [⟨.execution, served.candidate, streamingUsage pricing
      (ctx.callRequest served.candidate) ((streamedReport (receivedChunks served.result left)).map Prod.snd)⟩] := by
    rw [streamObtained, hexec]
    exact if_pos hok
  rw [ChargedOnce, ChatRun.obtained, ChatRun.accounts, hobtained, streamAccounts_eq hexec hok,
    List.forall_mem_singleton, StreamAccountable]
  cases hreport : chargedReport env ctx served.result left with
  | none =>
    dsimp only
    rw [amounts_nil]
    cases ctx.budgetActive <;> cases served.candidate.isPlatformKey <;> simp
  | some report =>
    rw [streamedReport_of_charged hreport]
    dsimp only [reportAccounts, Option.map_some]
    refine and_congr (imp_congr_right fun hactive => ?_) ?_
    · cases writesBudget left with
      | false => simp [amounts_nil]
      | true => exact (amounts_incrementSessionBudget hactive).trans (and_iff_right rfl).symm
    · rw [amounts_processBilling, ite_singleton_eq_ite]
      cases served.candidate.isPlatformKey <;> simp [Billable, Obtained.cost, FallbackResult.providerUsed]

end Streamed

/-- Every answer of a request is charged once, at its cost and to its payer, exactly if the request is accountable. -/
theorem charged_once_iff (env : GatewayEnv) (pricing : Pricing) (ctx : ChatContext) (run : ChatRun) :
    ChargedOnce env pricing ctx run ↔ Accountable env pricing ctx run := by
  cases run with
  | answered outcomes left =>
    cases hexec : execution env ctx outcomes with
    | ok fb => exact chargedOnce_answered hexec
    | error error =>
      refine iff_of_true (fun o ho => ?_) fun fb hfb => ?_
      · rw [ChatRun.obtained, chatObtained, hexec] at ho
        cases ho
      · cases hexec.symm.trans hfb
  | streamed answers left =>
    cases hexec : executeChain env.maxRetries answers ctx.chain with
    | ok fb =>
      have hcond : Accountable env pricing ctx (.streamed answers left) ↔
          ((receivedChunks fb.result left).all (·.isOk) = true → StreamAccountable env pricing ctx fb left) :=
        ⟨fun h => h fb hexec, fun h fb' hfb' => by cases hexec.symm.trans hfb'; exact h⟩
      rw [hcond]
      by_cases hok : (receivedChunks fb.result left).all (·.isOk) = true
      · rw [forall_prop_of_true hok]
        exact chargedOnce_streamed hexec hok
      · refine iff_of_true (fun o ho => ?_) fun h => absurd h hok
        rw [ChatRun.obtained, streamObtained, hexec] at ho
        simp only [if_neg hok] at ho
        cases ho
    | error error =>
      refine iff_of_true (fun o ho => ?_) fun fb hfb => ?_
      · rw [ChatRun.obtained, streamObtained, hexec] at ho
        cases ho
      · cases hexec.symm.trans hfb

end Accounts

/-! ### Charged to the wrong payer, and not at all -/

def flatPricing : Pricing where
  cost _ _ usage := usage.promptTokens + usage.completionTokens
  estimateInputTokens _ := 1
  cost_zero _ _ := rfl

/-- The first candidate has the customer's own key and is out, the second one a key of the platform. -/
def mixedContext : ChatContext where
  projectId := "7b0c"
  request := { model := "gpt-4o", messages := [{ role := .user, content := some "hi" }] }
  primary := { provider := .openAi, model := "gpt-4o", key := "sk-customer", isPlatformKey := false }
  fallbacks := [{ provider := .anthropic, model := "claude", key := "sk-platform", isPlatformKey := true }]
  orgId := some 1

def fallbackAnswers : Answers ChatCompletionResponse where
  circuitOpen _ := false
  degraded _ := false
  attempt i _ :=
    if i = 0 then .error (.providerError .openAi 402 "quota")
    else .ok { model := "claude", choices := [{ content := some "hello" }], usage := { promptTokens := 5 } }

def openEnv : GatewayEnv where
  filters := { toLowercase text := text, redactIfChanged _ := none, detectExfiltrationInText _ := none }
  sha256Hex text := text
  validateAgainstSchema _ _ := .ok ()

def streamAnswers : Answers ChunkStream where
  circuitOpen _ := false
  degraded _ := false
  attempt _ _ := .ok [.ok { model := "gpt-4o", usage := some { promptTokens := 5 } }]

/-- The first candidate has a key of the platform, the second one the customer's own. -/
def exchangedContext : ChatContext :=
  { mixedContext with
    primary := { mixedContext.primary with isPlatformKey := true }
    fallbacks := mixedContext.fallbacks.map fun candidate => { candidate with isPlatformKey := false } }

/-- The platform pays for the fallback, and nothing is reported; with the keys the other way round, the customer's own
    call is reported. A client that leaves a stream after its only chunk leaves no accounts. -/
theorem fallback_misbilled :
    ¬ChatRun.ChargedOnce openEnv flatPricing mixedContext (.answered ⟨fallbackAnswers, fallbackAnswers⟩ none) ∧
    ¬ChatRun.ChargedOnce openEnv flatPricing exchangedContext (.answered ⟨fallbackAnswers, fallbackAnswers⟩ none) ∧
    ¬ChatRun.ChargedOnce openEnv flatPricing exchangedContext (.streamed streamAnswers (some (.chunk 1))) := by
  refine ⟨?_, ?_, ?_⟩
  · intro h
    have hmeter := (h ⟨.execution, _, _⟩ (List.mem_singleton_self _)).2
    exact absurd hmeter (by decide)
  · intro h
    have hmeter := (h ⟨.execution, _, _⟩ (List.mem_singleton_self _)).2
    exact absurd hmeter (by decide)
  · intro h
    have hmeter := (h ⟨.execution, _, _⟩ (List.mem_singleton_self _)).2
    exact absurd hmeter (by decide)

end Reiver.Flow
