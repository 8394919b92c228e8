import Reiver.Flow.Gateway.Guardrails

/-! # The stream processor

The model of `StreamChunkProcessor` of `stream_processor.rs`, as far as the completion summary goes: the first chunk
that reports the usage or the first error makes the summary, and later ones change nothing. A guardrail that fires is
such an error, and what the provider reports afterwards is lost (`summary_of_ok`). -/

namespace Reiver.Flow

structure ChunkChoice where
  content : Option String := none
  thinking : Option String := none
  reasoningContent : Option String := none
  toolCalls : Option (List ToolCall) := none
  finishReason : Option String := none
deriving DecidableEq

structure ChatCompletionChunk where
  model : String
  choices : List ChunkChoice := []
  usage : Option Usage := none
deriving DecidableEq

abbrev ChunkStream := List (Except GatewayError ChatCompletionChunk)

structure StreamCompletionSummary where
  model : String := ""
  usage : Option Usage := none
  error : Option String := none
deriving DecidableEq

structure StreamProcessor where
  exfiltrationBuffer : List Char := []
  summary : Option StreamCompletionSummary := none

/-! ### One chunk -/

namespace ChatCompletionChunk

/-- The text that is scanned: that of the first choice. -/
def deltaContent (chunk : ChatCompletionChunk) : Option String := chunk.choices.head?.bind (·.content)

def toolCallNames (chunk : ChatCompletionChunk) : List String :=
  chunk.choices.flatMap fun choice => (choice.toolCalls.getD []).map (·.name)

def isUsageOnly (chunk : ChatCompletionChunk) : Bool := chunk.choices.isEmpty && chunk.usage.isSome

def isFinal (chunk : ChatCompletionChunk) : Bool := (chunk.choices.head?.bind (·.finishReason)).isSome

/-- The usage, if the summary goes out with this chunk. -/
def reportedUsage (chunk : ChatCompletionChunk) : Option Usage :=
  if chunk.isUsageOnly || chunk.isFinal then chunk.usage else none

end ChatCompletionChunk

section Chunk
variable (F : TextFilters) (policy : OutputPolicy)

def maskChoice (choice : ChunkChoice) : ChunkChoice :=
  { choice with content := choice.content.map F.maskText, thinking := choice.thinking.map F.maskText }

def maskChunk (chunk : ChatCompletionChunk) : ChatCompletionChunk :=
  if policy.guardrailConfig.maskOutputPii then { chunk with choices := chunk.choices.map (maskChoice F) } else chunk

/-- The first name that the list of the prompt leaves out or the project blocks. -/
def streamToolViolation (names : List String) : Option GatewayError :=
  names.findSome? fun name =>
    if name = "" then none
    else if policy.allowedTools.any (name ∉ ·) then
      some (.guardrailViolation .toolCallBlocked
        ("Tool call \"" ++ name ++ "\" is not in the allowed tools list for this prompt."))
    else if F.toLowercase name ∈ policy.guardrailConfig.blockedTools.map F.toLowercase then
      some (.guardrailViolation .toolCallBlocked
        ("Tool call \"" ++ name ++ "\" is blocked by the project's guardrail policy."))
    else none

/-- The end of a text that fits into 2048 bytes. -/
def boundedBuffer : List Char → List Char
  | [] => []
  | c :: text => if (String.ofList (c :: text)).utf8ByteSize ≤ 2048 then c :: text else boundedBuffer text

/-- The buffer after a chunk, if URLs are scanned for. -/
def nextBuffer (buffer : List Char) (chunk : ChatCompletionChunk) : List Char :=
  if policy.guardrailConfig.blockExfiltrationUrls then
    match chunk.deltaContent with
    | some content => boundedBuffer (buffer ++ content.toList)
    | none => buffer
  else buffer

def exfiltrates (buffer : List Char) (chunk : ChatCompletionChunk) : Bool :=
  policy.guardrailConfig.blockExfiltrationUrls && chunk.deltaContent.isSome
    && (F.detectExfiltrationInText (String.ofList (nextBuffer policy buffer chunk))).isSome

def chunkViolation (buffer : List Char) (chunk : ChatCompletionChunk) : Option GatewayError :=
  match streamToolViolation F policy chunk.toolCallNames with
  | some error => some error
  | none =>
    if exfiltrates F policy buffer chunk then
      some (.guardrailViolation .exfiltrationBlocked
        "Response blocked: potential data exfiltration detected via external URL reference.")
    else none

/-- Tools are checked before the text goes to the buffer. -/
def bufferAfter (buffer : List Char) (chunk : ChatCompletionChunk) : List Char :=
  match streamToolViolation F policy chunk.toolCallNames with
  | some _ => buffer
  | none => nextBuffer policy buffer chunk

end Chunk

/-! ### The stream -/

def errorSummary (error : GatewayError) : StreamCompletionSummary := { error := some error.display }

namespace StreamProcessor

def send (p : StreamProcessor) (summary : StreamCompletionSummary) : StreamProcessor :=
  { p with summary := p.summary <|> some summary }

variable (F : TextFilters) (policy : OutputPolicy)

def process (p : StreamProcessor) : Except GatewayError ChatCompletionChunk → StreamProcessor
  | .error error => p.send (errorSummary error)
  | .ok received =>
    let chunk := maskChunk F policy received
    let after := { p with exfiltrationBuffer := bufferAfter F policy p.exfiltrationBuffer chunk }
    match chunkViolation F policy p.exfiltrationBuffer chunk with
    | some error => after.send (errorSummary error)
    | none =>
      match chunk.reportedUsage with
      | some usage => after.send { model := chunk.model, usage := some usage }
      | none => after

end StreamProcessor

section Stream
variable (F : TextFilters) (policy : OutputPolicy)

/-- What is made up where no summary goes out. -/
def missingSummary : StreamCompletionSummary := { error := some "stream ended without final chunk (timeout)" }

/-- The summary that the done callback receives. -/
def completionSummary (stream : ChunkStream) : StreamCompletionSummary :=
  (stream.foldl (StreamProcessor.process F policy) {}).summary.getD missingSummary

/-- A guardrail fires before the usage is reported. -/
def guardrailCuts : List Char → ChunkStream → Bool
  | _, [] => false
  | _, .error _ :: _ => false
  | buffer, .ok received :: stream =>
    let chunk := maskChunk F policy received
    (chunkViolation F policy buffer chunk).isSome
      || (chunk.reportedUsage.isNone && guardrailCuts (bufferAfter F policy buffer chunk) stream)

end Stream

/-- The usage that a stream reports first, with the model of its chunk. -/
def streamedReport (stream : ChunkStream) : Option (String × Usage) :=
  stream.findSome? fun item => item.toOption.bind fun chunk => chunk.reportedUsage.map (chunk.model, ·)

/-- What the summary has of a stream without an error: what it reports before a guardrail fires. -/
def summedReport (F : TextFilters) (policy : OutputPolicy) (buffer : List Char) (stream : ChunkStream) :
    Option (String × Usage) :=
  if guardrailCuts F policy buffer stream then none else streamedReport stream

def StreamCompletionSummary.Sums (summary : StreamCompletionSummary) (report : Option (String × Usage)) : Prop :=
  match report with
  | some (model, usage) => summary = { model, usage := some usage }
  | none => summary.error.isSome = true ∧ summary.usage = none

/-! ### What the summary says -/

section Summary
variable {F : TextFilters} {policy : OutputPolicy} {stream : ChunkStream}

@[simp] theorem maskChunk_model (chunk : ChatCompletionChunk) : (maskChunk F policy chunk).model = chunk.model := by
  unfold maskChunk
  split <;> rfl

theorem maskChunk_reportedUsage (chunk : ChatCompletionChunk) :
    (maskChunk F policy chunk).reportedUsage = chunk.reportedUsage := by
  unfold maskChunk
  split
  · cases hchoices : chunk.choices <;>
      simp [ChatCompletionChunk.reportedUsage, ChatCompletionChunk.isUsageOnly, ChatCompletionChunk.isFinal, hchoices,
        maskChoice]
  · rfl

theorem foldl_process_of_sent {p : StreamProcessor} {summary : StreamCompletionSummary} (h : p.summary = some summary) :
    (stream.foldl (StreamProcessor.process F policy) p).summary = some summary := by
  induction stream generalizing p with
  | nil => exact h
  | cons item stream ih =>
    refine ih ?_
    unfold StreamProcessor.process
    split
    · simp [StreamProcessor.send, h]
    · dsimp only
      split
      · simp [StreamProcessor.send, h]
      · split
        · simp [StreamProcessor.send, h]
        · exact h

theorem foldl_process {p : StreamProcessor} (h : p.summary = none) (hok : stream.all (·.isOk) = true) :
    ((stream.foldl (StreamProcessor.process F policy) p).summary.getD missingSummary).Sums
      (summedReport F policy p.exfiltrationBuffer stream) := by
  induction stream generalizing p with
  | nil =>
    rw [List.foldl_nil, h]
    exact ⟨rfl, rfl⟩
  | cons item stream ih =>
    rw [List.all_cons, Bool.and_eq_true] at hok
    obtain ⟨received, rfl⟩ : ∃ received, item = .ok received := by
      cases item with
      | error error => exact absurd hok.1 Bool.false_ne_true
      | ok received => exact ⟨received, rfl⟩
    rw [List.foldl_cons, summedReport, guardrailCuts, StreamProcessor.process, streamedReport, List.findSome?_cons]
    simp only [Except.toOption, Option.bind_some]
    cases hviolation : chunkViolation F policy p.exfiltrationBuffer (maskChunk F policy received) with
    | some error =>
      dsimp only
      rw [@foldl_process_of_sent F policy stream _ (errorSummary error) (by simp [StreamProcessor.send, h])]
      exact ⟨rfl, rfl⟩
    | none =>
      dsimp only
      rw [maskChunk_reportedUsage]
      cases hreported : received.reportedUsage with
      | some reported =>
        dsimp only
        rw [@foldl_process_of_sent F policy stream _ { model := received.model, usage := some reported }
          (by simp [StreamProcessor.send, h])]
        rfl
      | none =>
        have hrest := ih (p := { p with
          exfiltrationBuffer := bufferAfter F policy p.exfiltrationBuffer (maskChunk F policy received) }) h hok.2
        simpa [summedReport, streamedReport, Except.toOption] using hrest

theorem summary_of_ok (hok : stream.all (·.isOk) = true) :
    (completionSummary F policy stream).Sums (summedReport F policy [] stream) := foldl_process rfl hok

end Summary

end Reiver.Flow
