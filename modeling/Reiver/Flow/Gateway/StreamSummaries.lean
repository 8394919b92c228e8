import Reiver.Flow.Gateway.Streaming

/-! # The summaries of a stream

The stream processor with the sender of its completion summary and what it sent. A summary goes out with the first
chunk that reports a usage while it finishes the stream or has no choices; a usage anywhere else is not seen. -/

namespace Reiver.Flow

/-- What the processor keeps between chunks. `sent` is history. -/
structure SummarySender where
  exfiltrationBuffer : List Char := []
  completionTx : Bool := true
  sent : List StreamCompletionSummary := []

namespace SummarySender

/-- The sender is taken with the first summary. -/
def send (s : SummarySender) (summary : StreamCompletionSummary) : SummarySender :=
  if s.completionTx then { s with completionTx := false, sent := s.sent ++ [summary] } else s

variable (F : TextFilters) (policy : OutputPolicy)

def process (s : SummarySender) : Except GatewayError ChatCompletionChunk → SummarySender
  | .error error => s.send (errorSummary error)
  | .ok received =>
    let chunk := maskChunk F policy received
    let after := { s with exfiltrationBuffer := bufferAfter F policy s.exfiltrationBuffer chunk }
    match chunkViolation F policy s.exfiltrationBuffer chunk with
    | some error => after.send (errorSummary error)
    | none =>
      if chunk.isUsageOnly || (chunk.isFinal && chunk.usage.isSome) then
        after.send { model := chunk.model, usage := chunk.usage }
      else after

def sentOver (stream : ChunkStream) : List StreamCompletionSummary := (stream.foldl (process F policy) {}).sent

end SummarySender

/-! ### What must hold of a stream -/

section Streams
variable (F : TextFilters) (policy : OutputPolicy)

/-- No error, and no guardrail fires, whatever is in the buffer before. -/
def CleanFrom : List Char → ChunkStream → Prop
  | _, [] => True
  | _, .error _ :: _ => False
  | buffer, .ok received :: stream =>
    chunkViolation F policy buffer (maskChunk F policy received) = none ∧
      CleanFrom (bufferAfter F policy buffer (maskChunk F policy received)) stream

/-- A choice of some chunk has its finish reason. -/
def Finished (stream : ChunkStream) : Prop :=
  ∃ chunk, .ok chunk ∈ stream ∧ ∃ choice ∈ chunk.choices, choice.finishReason.isSome = true

def itemUsage (item : Except GatewayError ChatCompletionChunk) : Option Usage := item.toOption.bind (·.usage)

/-- The usage that a provider reported, in the end. -/
def providerUsage (stream : ChunkStream) : Option Usage := (stream.filterMap itemUsage).getLast?

/-- The usage of the first chunk that reports it without choices or with the finish reason of its first choice. -/
def closingUsage (stream : ChunkStream) : Option Usage :=
  stream.findSome? fun item => item.toOption.bind (·.reportedUsage)

/-- At most one summary goes out. A clean stream that finishes has one, without an error and with the usage. -/
structure SummedUp (stream : ChunkStream) : Prop where
  once : (SummarySender.sentOver F policy stream).length ≤ 1
  usage : CleanFrom F policy [] stream → Finished stream → ∃ summary,
    SummarySender.sentOver F policy stream = [summary] ∧ summary.error = none ∧ summary.usage = providerUsage stream

end Streams

/-! ### What is sent -/

section Sent
variable {F : TextFilters} {policy : OutputPolicy} {stream : ChunkStream} {s : SummarySender}
  {item : Except GatewayError ChatCompletionChunk}

namespace SummarySender

/-- What has been sent and the sender that is left are one summary. -/
def Single (s : SummarySender) : Prop := s.sent.length + (if s.completionTx then 1 else 0) = 1

theorem Single.send (h : s.Single) (summary : StreamCompletionSummary) : (s.send summary).Single := by
  unfold Single at h
  unfold SummarySender.send Single
  cases htx : s.completionTx with
  | true => simpa [htx] using h
  | false => simpa [htx] using h

theorem Single.process (h : s.Single) : (s.process F policy item).Single := by
  have hbuffer : ∀ buffer, Single { s with exfiltrationBuffer := buffer } := fun _ => h
  unfold SummarySender.process
  split
  · exact h.send _
  · dsimp only
    split
    · exact (hbuffer _).send _
    · split
      · exact (hbuffer _).send _
      · exact hbuffer _

theorem Single.foldl (h : s.Single) : (stream.foldl (SummarySender.process F policy) s).Single := by
  induction stream generalizing s with
  | nil => exact h
  | cons item stream ih => exact ih h.process

theorem send_of_taken (h : s.completionTx = false) (summary : StreamCompletionSummary) : s.send summary = s := by
  rw [send, if_neg (by rw [h]; exact Bool.false_ne_true)]

theorem foldl_of_taken (h : s.completionTx = false) :
    (stream.foldl (SummarySender.process F policy) s).sent = s.sent := by
  induction stream generalizing s with
  | nil => rfl
  | cons item stream ih =>
    obtain ⟨buffer, hprocess⟩ : ∃ buffer, s.process F policy item = { s with exfiltrationBuffer := buffer } := by
      have htaken : ∀ buffer summary, SummarySender.send { s with exfiltrationBuffer := buffer } summary =
          { s with exfiltrationBuffer := buffer } :=
        fun buffer summary => send_of_taken (s := { s with exfiltrationBuffer := buffer }) h summary
      unfold SummarySender.process
      split
      · exact ⟨_, send_of_taken h _⟩
      · dsimp only
        split
        · exact ⟨_, htaken _ _⟩
        · split
          · exact ⟨_, htaken _ _⟩
          · exact ⟨_, rfl⟩
    rw [List.foldl_cons, hprocess]
    exact ih h

end SummarySender

theorem reportedUsage_isSome (chunk : ChatCompletionChunk) :
    chunk.reportedUsage.isSome = (chunk.isUsageOnly || (chunk.isFinal && chunk.usage.isSome)) := by
  unfold ChatCompletionChunk.reportedUsage ChatCompletionChunk.isUsageOnly
  cases chunk.usage <;> cases chunk.choices.isEmpty <;> cases chunk.isFinal <;> rfl

theorem usage_of_reportedUsage {chunk : ChatCompletionChunk} {usage : Usage} (h : chunk.reportedUsage = some usage) :
    chunk.usage = some usage := by
  unfold ChatCompletionChunk.reportedUsage at h
  split at h
  · exact h
  · cases h

theorem sent_of_clean (hclean : CleanFrom F policy s.exfiltrationBuffer stream) (htx : s.completionTx = true)
    (hsent : s.sent = []) :
    (closingUsage stream = none → (stream.foldl (SummarySender.process F policy) s).sent = []) ∧
    ∀ usage, closingUsage stream = some usage →
      ∃ model, (stream.foldl (SummarySender.process F policy) s).sent = [{ model, usage := some usage }] := by
  induction stream generalizing s with
  | nil => exact ⟨fun _ => hsent, fun _ h => by cases h⟩
  | cons item stream ih =>
    cases item with
    | error error => exact hclean.elim
    | ok received =>
      obtain ⟨hviolation, hrest⟩ := hclean
      have hreports := reportedUsage_isSome (maskChunk F policy received)
      rw [maskChunk_reportedUsage] at hreports
      rw [List.foldl_cons, SummarySender.process, closingUsage, List.findSome?_cons]
      simp only [hviolation, ← hreports, Except.toOption, Option.bind_some]
      cases hreported : received.reportedUsage with
      | none => exact ih hrest htx hsent
      | some reported =>
        have husage : (maskChunk F policy received).usage = some reported :=
          usage_of_reportedUsage (maskChunk_reportedUsage received ▸ hreported)
        refine ⟨fun h => (by cases h), fun usage h => ⟨(maskChunk F policy received).model, ?_⟩⟩
        cases h
        rw [Option.isSome_some, if_pos rfl, SummarySender.send, if_pos htx, SummarySender.foldl_of_taken rfl, hsent,
          husage]
        rfl

/-- A stream is summed up exactly if, when it is clean and finishes, a chunk closes it with the usage that the provider
    reported in the end. -/
theorem summedUp_iff (F : TextFilters) (policy : OutputPolicy) (stream : ChunkStream) :
    SummedUp F policy stream ↔
      (CleanFrom F policy [] stream → Finished stream →
        ∃ usage, closingUsage stream = some usage ∧ providerUsage stream = some usage) := by
  have honce : (SummarySender.sentOver F policy stream).length ≤ 1 := by
    have hsingle : (stream.foldl (SummarySender.process F policy) {}).Single :=
      SummarySender.Single.foldl (s := {}) rfl
    unfold SummarySender.Single at hsingle
    unfold SummarySender.sentOver
    omega
  constructor
  · intro h hclean hfinished
    obtain ⟨hnothing, hclosed⟩ := sent_of_clean (s := {}) hclean rfl rfl
    obtain ⟨summary, hone, -, husage⟩ := h.usage hclean hfinished
    cases hclosing : closingUsage stream with
    | none => exact absurd ((hnothing hclosing).symm.trans hone) (List.cons_ne_nil _ _).symm
    | some usage =>
      obtain ⟨model, hsent⟩ := hclosed usage hclosing
      obtain ⟨rfl, -⟩ := List.cons.inj (hsent.symm.trans hone)
      exact ⟨usage, rfl, husage.symm⟩
  · refine fun h => ⟨honce, fun hclean hfinished => ?_⟩
    obtain ⟨usage, hclosing, hprovider⟩ := h hclean hfinished
    obtain ⟨model, hsent⟩ := (sent_of_clean (s := {}) hclean rfl rfl).2 usage hclosing
    exact ⟨_, hsent, rfl, hprovider.symm⟩

/-- The last text comes with the usage, and the finish reason after it in a chunk of its own. -/
def usageBeforeEnd : ChunkStream :=
  [.ok { model := "gpt-4o"
         choices := [{ content := some "Hello" }]
         usage := some { promptTokens := 5, completionTokens := 1 } },
    .ok { model := "gpt-4o", choices := [{ finishReason := some "stop" }] }]

theorem not_summedUp : ¬∀ F policy stream, SummedUp F policy stream := by
  intro h
  have hsummed := h ⟨id, fun _ => none, fun _ => none⟩ {} usageBeforeEnd
  have hclean : CleanFrom ⟨id, fun _ => none, fun _ => none⟩ {} [] usageBeforeEnd := ⟨rfl, rfl, trivial⟩
  obtain ⟨summary, hone, -⟩ := hsummed.usage hclean ⟨_, List.mem_cons_of_mem _ (List.mem_singleton.mpr rfl), _,
    List.mem_singleton.mpr rfl, rfl⟩
  exact absurd (((sent_of_clean (s := {}) hclean rfl rfl).1 rfl).symm.trans hone) (List.cons_ne_nil _ _).symm

/-! ### The summary that is kept -/

/-- The processor that keeps its first summary and the sender agree. -/
structure Mirrors (s : SummarySender) (p : StreamProcessor) : Prop where
  buffer : s.exfiltrationBuffer = p.exfiltrationBuffer
  summary : s.sent.head? = p.summary
  taken : s.completionTx = p.summary.isNone

theorem Mirrors.send {p : StreamProcessor} (h : Mirrors s p) (summary : StreamCompletionSummary) :
    Mirrors (s.send summary) (p.send summary) := by
  have hsummary := h.summary
  have htaken := h.taken
  unfold SummarySender.send StreamProcessor.send
  cases hp : p.summary with
  | none =>
    rw [hp] at hsummary htaken
    have htx : s.completionTx = true := htaken
    rw [if_pos htx]
    exact ⟨h.buffer, by rw [List.head?_append, hsummary]; rfl, rfl⟩
  | some first =>
    rw [hp] at hsummary htaken
    rw [if_neg (by rw [htaken]; exact Bool.false_ne_true)]
    exact ⟨h.buffer, hsummary, htaken⟩

theorem Mirrors.process {p : StreamProcessor} (h : Mirrors s p) :
    Mirrors (s.process F policy item) (p.process F policy item) := by
  have hbuffer : ∀ buffer, Mirrors { s with exfiltrationBuffer := buffer } { p with exfiltrationBuffer := buffer } :=
    fun _ => ⟨rfl, h.summary, h.taken⟩
  cases item with
  | error error => exact h.send _
  | ok received =>
    have hreports := reportedUsage_isSome (maskChunk F policy received)
    rw [SummarySender.process, StreamProcessor.process, h.buffer]
    cases chunkViolation F policy p.exfiltrationBuffer (maskChunk F policy received) with
    | some error => exact (hbuffer _).send _
    | none =>
      simp only [← hreports]
      cases hreported : (maskChunk F policy received).reportedUsage with
      | none => exact hbuffer _
      | some usage =>
        rw [Option.isSome_some, if_pos rfl, usage_of_reportedUsage hreported]
        exact (hbuffer _).send _

theorem head?_sentOver (F : TextFilters) (policy : OutputPolicy) (stream : ChunkStream) :
    (SummarySender.sentOver F policy stream).head? = (stream.foldl (StreamProcessor.process F policy) {}).summary := by
  suffices h : ∀ s p, Mirrors s p →
      Mirrors (stream.foldl (SummarySender.process F policy) s) (stream.foldl (StreamProcessor.process F policy) p) from
    (h {} {} ⟨rfl, rfl, rfl⟩).summary
  induction stream with
  | nil => exact fun _ _ h => h
  | cons item stream ih => exact fun s p h => ih _ _ h.process

end Sent

end Reiver.Flow
