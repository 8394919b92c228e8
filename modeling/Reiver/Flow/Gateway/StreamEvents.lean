import Reiver.Flow.Gateway.Streaming

/-! # What a stream forwards

The events that `StreamChunkProcessor::process` answers with, which `sse_stream` sends to the client one by one. No
call remembers that an earlier one was blocked: what becomes of a chunk depends on its own tool calls, and on the text
in the buffer (`event_forwards`). -/

namespace Reiver.Flow

inductive StreamEvent where
  | data (chunk : ChatCompletionChunk)
  | error (error : GatewayError)
  | comment
deriving DecidableEq

/-- The delta holds no response content, no thinking text and no data of a tool call. -/
structure ChunkChoice.Bare (choice : ChunkChoice) : Prop where
  content : ∀ text ∈ choice.content, text = ""
  thinking : ∀ text ∈ choice.thinking, text = ""
  reasoningContent : ∀ text ∈ choice.reasoningContent, text = ""
  toolCalls : ∀ calls ∈ choice.toolCalls, calls = []

def ChatCompletionChunk.Carries (chunk : ChatCompletionChunk) : Prop := ∃ choice ∈ chunk.choices, ¬choice.Bare

namespace StreamEvent

def IsBlock : StreamEvent → Prop
  | .error (.guardrailViolation _ _) => True
  | _ => False

def Forwards : StreamEvent → Prop
  | .data chunk => chunk.Carries
  | _ => False

end StreamEvent

section Events
variable (F : TextFilters) (policy : OutputPolicy) (clientIncludeUsage : Bool)

def StreamProcessor.event (p : StreamProcessor) : Except GatewayError ChatCompletionChunk → StreamEvent
  | .error error => .error error
  | .ok received =>
    let chunk := maskChunk F policy received
    match chunkViolation F policy p.exfiltrationBuffer chunk with
    | some error => .error error
    | none => if chunk.isUsageOnly && !clientIncludeUsage then .comment else .data chunk

def sseStream : StreamProcessor → ChunkStream → List StreamEvent
  | _, [] => []
  | p, item :: stream => p.event F policy clientIncludeUsage item :: sseStream (p.process F policy item) stream

/-- After an event that reports a violation nothing of the response is forwarded. -/
def BlockFinal (stream : ChunkStream) : Prop :=
  let events := sseStream F policy clientIncludeUsage {} stream
  ∀ i j : Nat, i < j → ∀ event ∈ events[i]?, event.IsBlock → ∀ later ∈ events[j]?, ¬later.Forwards

end Events

/-! ### What a chunk breaks -/

section Rules
variable (F : TextFilters) (policy : OutputPolicy)

/-- The list of the prompt leaves the tool out, or the project blocks it. -/
def Forbidden (name : String) : Prop :=
  name ≠ "" ∧ (policy.allowedTools.any (name ∉ ·) = true ∨
    F.toLowercase name ∈ policy.guardrailConfig.blockedTools.map F.toLowercase)

instance (name : String) : Decidable (Forbidden F policy name) :=
  inferInstanceAs (Decidable (name ≠ "" ∧ (policy.allowedTools.any (name ∉ ·) = true ∨
    F.toLowercase name ∈ policy.guardrailConfig.blockedTools.map F.toLowercase)))

/-- A chunk after `text` names a forbidden tool, or the last bytes up to its own content hold a URL. -/
def ChunkBreaks (text : List Char) (chunk : ChatCompletionChunk) : Prop :=
  (∃ name ∈ chunk.toolCallNames, Forbidden F policy name) ∨
    policy.guardrailConfig.blockExfiltrationUrls = true ∧ ∃ content ∈ chunk.deltaContent,
      (F.detectExfiltrationInText (String.ofList (boundedBuffer (text ++ content.toList)))).isSome = true

def ItemBreaks (text : List Char) : Except GatewayError ChatCompletionChunk → Prop
  | .error error => (StreamEvent.error error).IsBlock
  | .ok received => ChunkBreaks F policy text (maskChunk F policy received)

def ItemCarries : Except GatewayError ChatCompletionChunk → Prop
  | .error _ => False
  | .ok received => (maskChunk F policy received).Carries

/-- The text that an item adds to what is scanned: none if its tools are blocked already. -/
def scannedText : Except GatewayError ChatCompletionChunk → List Char
  | .error _ => []
  | .ok received =>
    let chunk := maskChunk F policy received
    if ∃ name ∈ chunk.toolCallNames, Forbidden F policy name then [] else (chunk.deltaContent.getD "").toList

/-- Item `i` breaks a rule, after the text of the items before it. -/
def BreaksAt (stream : ChunkStream) (i : Nat) : Prop :=
  ∃ item ∈ stream[i]?, ItemBreaks F policy ((stream.take i).flatMap (scannedText F policy)) item

/-- After the first item that breaks a rule, those that carry anything break one as well. -/
def StaysBroken (stream : ChunkStream) : Prop :=
  ∀ i j, i < j → BreaksAt F policy stream i → ∀ item ∈ stream[j]?, ItemCarries F policy item →
    BreaksAt F policy stream j

end Rules

section Proofs
variable {F : TextFilters} {policy : OutputPolicy} {clientIncludeUsage : Bool}

theorem streamToolViolation_isSome {names : List String} :
    (streamToolViolation F policy names).isSome = true ↔ ∃ name ∈ names, Forbidden F policy name := by
  rw [streamToolViolation, List.findSome?_isSome_iff]
  refine exists_congr fun name => and_congr_right fun _ => ?_
  rw [Forbidden]
  split_ifs with hempty hallowed hblocked
  · simp [hempty]
  · exact iff_of_true rfl ⟨hempty, .inl hallowed⟩
  · exact iff_of_true rfl ⟨hempty, .inr hblocked⟩
  · refine iff_of_false Bool.false_ne_true fun h => ?_
    exact h.2.elim hallowed hblocked

theorem streamToolViolation_isBlock {names : List String} {error : GatewayError}
    (h : streamToolViolation F policy names = some error) : (StreamEvent.error error).IsBlock := by
  obtain ⟨name, -, hname⟩ := List.exists_of_findSome?_eq_some h
  split_ifs at hname <;> cases hname <;> trivial

theorem boundedBuffer_append {text rest : List Char} :
    boundedBuffer (boundedBuffer text ++ rest) = boundedBuffer (text ++ rest) := by
  induction text with
  | nil => rfl
  | cons c text ih =>
    rw [boundedBuffer]
    split_ifs with hfits
    · rfl
    · have hlonger : ¬(String.ofList (c :: (text ++ rest))).utf8ByteSize ≤ 2048 := by
        rw [← List.cons_append, String.ofList_append, String.utf8ByteSize_append]
        omega
      rw [ih, List.cons_append, boundedBuffer.eq_2, if_neg hlonger]

/-- The buffer holds the end of the scanned text. -/
def Buffers (policy : OutputPolicy) (p : StreamProcessor) (text : List Char) : Prop :=
  policy.guardrailConfig.blockExfiltrationUrls = true → p.exfiltrationBuffer = boundedBuffer text

section Chunk
variable {p : StreamProcessor} {text : List Char} {chunk : ChatCompletionChunk}
  {item : Except GatewayError ChatCompletionChunk}

theorem nextBuffer_eq (h : Buffers policy p text) (hscans : policy.guardrailConfig.blockExfiltrationUrls = true) :
    nextBuffer policy p.exfiltrationBuffer chunk = boundedBuffer (text ++ (chunk.deltaContent.getD "").toList) := by
  rw [nextBuffer, if_pos hscans, h hscans]
  cases chunk.deltaContent with
  | none => simp
  | some content => exact boundedBuffer_append

theorem exfiltrates_iff (h : Buffers policy p text) :
    exfiltrates F policy p.exfiltrationBuffer chunk = true ↔
      policy.guardrailConfig.blockExfiltrationUrls = true ∧ ∃ content ∈ chunk.deltaContent,
        (F.detectExfiltrationInText (String.ofList (boundedBuffer (text ++ content.toList)))).isSome = true := by
  rw [exfiltrates, Bool.and_eq_true, Bool.and_eq_true, and_assoc]
  refine and_congr_right fun hscans => ?_
  rw [nextBuffer_eq h hscans]
  cases chunk.deltaContent <;> simp

theorem chunkViolation_isSome (h : Buffers policy p text) :
    (chunkViolation F policy p.exfiltrationBuffer chunk).isSome = true ↔ ChunkBreaks F policy text chunk := by
  rw [chunkViolation, ChunkBreaks, ← streamToolViolation_isSome, ← exfiltrates_iff h]
  cases streamToolViolation F policy chunk.toolCallNames with
  | some error => simp
  | none =>
    dsimp only
    split_ifs with hurl <;> simp [hurl]

theorem chunkViolation_isBlock {buffer : List Char} {error : GatewayError}
    (h : chunkViolation F policy buffer chunk = some error) : (StreamEvent.error error).IsBlock := by
  rw [chunkViolation] at h
  cases htools : streamToolViolation F policy chunk.toolCallNames with
  | some tools =>
    rw [htools] at h
    cases h
    exact streamToolViolation_isBlock htools
  | none =>
    rw [htools] at h
    dsimp only at h
    split_ifs at h
    cases h
    trivial

theorem not_carries_of_usageOnly (h : chunk.isUsageOnly = true) : ¬chunk.Carries := by
  rintro ⟨choice, hchoice, -⟩
  rw [ChatCompletionChunk.isUsageOnly, Bool.and_eq_true, List.isEmpty_iff] at h
  rw [h.1] at hchoice
  cases hchoice

/-! ### One call -/

theorem event_isBlock (h : Buffers policy p text) :
    (p.event F policy clientIncludeUsage item).IsBlock ↔ ItemBreaks F policy text item := by
  cases item with
  | error error => exact Iff.rfl
  | ok received =>
    rw [ItemBreaks, ← chunkViolation_isSome h, StreamProcessor.event]
    cases hviolation : chunkViolation F policy p.exfiltrationBuffer (maskChunk F policy received) with
    | some error => exact iff_of_true (chunkViolation_isBlock hviolation) rfl
    | none =>
      dsimp only
      split_ifs <;> exact iff_of_false id Bool.false_ne_true

theorem event_forwards (h : Buffers policy p text) : (p.event F policy clientIncludeUsage item).Forwards ↔
    ItemCarries F policy item ∧ ¬ItemBreaks F policy text item := by
  cases item with
  | error error => exact iff_of_false id fun h => h.1
  | ok received =>
    rw [ItemBreaks, ItemCarries, ← chunkViolation_isSome h, StreamProcessor.event]
    cases hviolation : chunkViolation F policy p.exfiltrationBuffer (maskChunk F policy received) with
    | some error => exact iff_of_false id fun h => h.2 rfl
    | none =>
      dsimp only
      split_ifs with hsuppressed
      · rw [Bool.and_eq_true] at hsuppressed
        exact iff_of_false id fun h => not_carries_of_usageOnly hsuppressed.1 h.1
      · exact (and_iff_left Bool.false_ne_true).symm

theorem process_ok_buffer {received : ChatCompletionChunk} :
    (p.process F policy (.ok received)).exfiltrationBuffer =
      bufferAfter F policy p.exfiltrationBuffer (maskChunk F policy received) := by
  rw [StreamProcessor.process]
  split
  · rfl
  · split <;> rfl

theorem Buffers.process (h : Buffers policy p text) :
    Buffers policy (p.process F policy item) (text ++ scannedText F policy item) := by
  intro hscans
  cases item with
  | error error =>
    rw [scannedText, List.append_nil]
    exact h hscans
  | ok received =>
    rw [process_ok_buffer, bufferAfter, scannedText]
    cases htools : streamToolViolation F policy (maskChunk F policy received).toolCallNames with
    | some error =>
      rw [if_pos (streamToolViolation_isSome.mp (htools ▸ rfl)), List.append_nil]
      exact h hscans
    | none =>
      rw [if_neg (fun hnames => by simpa [htools] using streamToolViolation_isSome.mpr hnames)]
      exact nextBuffer_eq h hscans

end Chunk

/-! ### The stream -/

theorem buffers_foldl {stream : ChunkStream} {p : StreamProcessor} {text : List Char} (h : Buffers policy p text) :
    Buffers policy (stream.foldl (StreamProcessor.process F policy) p)
      (text ++ stream.flatMap (scannedText F policy)) := by
  induction stream generalizing p text with
  | nil => simpa using h
  | cons item stream ih =>
    rw [List.foldl_cons, List.flatMap_cons, ← List.append_assoc]
    exact ih h.process

theorem sseStream_getElem? {stream : ChunkStream} {p : StreamProcessor} (i : Nat) :
    (sseStream F policy clientIncludeUsage p stream)[i]? =
      stream[i]?.map (((stream.take i).foldl (StreamProcessor.process F policy) p).event F policy
        clientIncludeUsage) := by
  induction stream generalizing p i with
  | nil => rfl
  | cons item stream ih =>
    cases i with
    | zero => rfl
    | succ i => exact ih i

theorem exists_event {stream : ChunkStream} {P : StreamEvent → Prop}
    {Q : List Char → Except GatewayError ChatCompletionChunk → Prop}
    (hevent : ∀ p text item, Buffers policy p text → (P (p.event F policy clientIncludeUsage item) ↔ Q text item))
    (i : Nat) : (∃ event ∈ (sseStream F policy clientIncludeUsage {} stream)[i]?, P event) ↔
      ∃ item ∈ stream[i]?, Q ((stream.take i).flatMap (scannedText F policy)) item := by
  have hbuffers : Buffers policy ((stream.take i).foldl (StreamProcessor.process F policy) {})
      ([] ++ (stream.take i).flatMap (scannedText F policy)) := buffers_foldl fun _ => rfl
  rw [sseStream_getElem?]
  simp [hevent _ _ _ hbuffers]

end Proofs

/-- A block is final exactly if, after the first item that breaks a rule, those that carry anything break one too. -/
theorem blockFinal_iff (F : TextFilters) (policy : OutputPolicy) (clientIncludeUsage : Bool) (stream : ChunkStream) :
    BlockFinal F policy clientIncludeUsage stream ↔ StaysBroken F policy stream := by
  have hblocks : ∀ i, (∃ event ∈ (sseStream F policy clientIncludeUsage {} stream)[i]?, event.IsBlock) ↔
      BreaksAt F policy stream i := exists_event fun _ _ _ h => event_isBlock h
  have hforwarded : ∀ i, (∃ event ∈ (sseStream F policy clientIncludeUsage {} stream)[i]?, event.Forwards) ↔
      ∃ item ∈ stream[i]?, ItemCarries F policy item ∧
        ¬ItemBreaks F policy ((stream.take i).flatMap (scannedText F policy)) item :=
    exists_event fun _ _ _ h => event_forwards h
  constructor
  · intro h i j hij hbreaks item hitem hcarries
    obtain ⟨event, hevent, hblock⟩ := (hblocks i).mpr hbreaks
    by_contra hnot
    obtain ⟨later, hlater, hforwards⟩ :=
      (hforwarded j).mpr ⟨item, hitem, hcarries, fun hbreaks => hnot ⟨item, hitem, hbreaks⟩⟩
    exact h i j hij event hevent hblock later hlater hforwards
  · intro h i j hij event hevent hblock later hlater hforwards
    obtain ⟨item, hitem, hcarries, hnot⟩ := (hforwarded j).mp ⟨later, hlater, hforwards⟩
    obtain ⟨_, hsame, hbreaks⟩ := h i j hij ((hblocks i).mp ⟨event, hevent, hblock⟩) item hitem hcarries
    rw [Option.mem_def, Option.mem_def.mp hitem] at hsame
    cases hsame
    exact hnot hbreaks

/-! ### The arguments after the name -/

def asciiFilters : TextFilters where
  toLowercase text := text.map Char.toLower
  redactIfChanged _ := none
  detectExfiltrationInText _ := none

def toolFragment (name arguments : String) : Except GatewayError ChatCompletionChunk :=
  .ok { model := "gpt-4o", choices := [{ toolCalls := some [{ name := name, arguments := arguments }] }] }

/-- The name comes with the first fragment of a call only. -/
theorem block_not_final : ¬BlockFinal asciiFilters { guardrailConfig := { blockedTools := ["delete_all"] } } false
    [toolFragment "delete_all" "", toolFragment "" "everything"] := by
  intro h
  have hbreaks : ItemBreaks asciiFilters { guardrailConfig := { blockedTools := ["delete_all"] } } []
      (toolFragment "delete_all" "") := .inl ⟨"delete_all", List.mem_cons_self, by decide, .inr List.mem_cons_self⟩
  refine h 0 1 Nat.zero_lt_one _ rfl ((event_isBlock fun _ => rfl).mpr hbreaks) _ rfl
    ⟨_, List.mem_cons_self, fun hbare => ?_⟩
  exact List.cons_ne_nil _ _ (hbare.toolCalls _ rfl)

end Reiver.Flow
