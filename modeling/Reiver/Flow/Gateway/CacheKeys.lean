import Reiver.Flow.Gateway.Cache
import Reiver.Lib.Fields
import Std.Data.String.ToInt
import Std.Data.String.ToNat

/-! # What a cache key tells apart

`generate_cache_key` of `cache.rs` on whole requests, with the parts of their contents, their tool calls and all that
the key leaves out. Two requests of one key are sent alike exactly if the fields end at the same places in the text that
is hashed, and what is not hashed agrees (`keysApart_iff`). -/

namespace Reiver.Flow.CacheKeys

open Lib.Fields

/-! ### Requests -/

inductive ContentPart where
  | text (text : String)
  | imageUrl (url : String) (detail : Option String)
  | documentUrl (url : String) (mediaType filename : Option String)
deriving DecidableEq

inductive MessageContent where
  | text (text : String)
  | parts (parts : List ContentPart)
deriving DecidableEq

namespace ContentPart

def asText : ContentPart → Option String
  | .text s => some s
  | _ => none

def shape : ContentPart → Nat ⊕ ContentPart
  | .text s => .inl s.toList.length
  | part => .inr part

end ContentPart

namespace MessageContent

def asText : MessageContent → String
  | .text s => s
  | .parts ps => String.join (ps.filterMap ContentPart.asText)

/-- How a content is divided into parts, and those that are no text. -/
def shape : MessageContent → Option (List (Nat ⊕ ContentPart))
  | .text _ => none
  | .parts ps => some (ps.map ContentPart.shape)

end MessageContent

structure ToolCall where
  index : Option Nat := none
  id : String
  toolType : String := "function"
  name : String
  arguments : String
deriving DecidableEq

structure ChatMessage where
  role : MessageRole
  content : Option MessageContent := none
  name : Option String := none
  toolCalls : Option (List ToolCall) := none
  toolCallId : Option String := none
  reasoningContent : Option String := none
deriving DecidableEq

/-- Numbers that are no integers are given by their printed text, stop sequences by their JSON text. -/
structure ChatCompletionRequest where
  model : String
  messages : List ChatMessage
  temperature : Option String := none
  maxTokens : Option Nat := none
  topP : Option String := none
  n : Option Nat := none
  stream : Option Bool := none
  stop : Option String := none
  frequencyPenalty : Option String := none
  presencePenalty : Option String := none
  seed : Option Int := none
  tools : Option (List String) := none
  responseFormat : Option String := none
  thinking : Option ThinkingConfig := none
  reasoningEffort : Option String := none
deriving DecidableEq

def ChatMessage.plain (m : ChatMessage) : Flow.ChatMessage where
  role := m.role
  content := m.content.map MessageContent.asText
  name := m.name

/-- What the key and the check for cacheable requests read. -/
def ChatCompletionRequest.plain (r : ChatCompletionRequest) : Flow.ChatCompletionRequest where
  model := r.model
  messages := r.messages.map ChatMessage.plain
  temperature := r.temperature
  topP := r.topP
  maxTokens := r.maxTokens
  n := r.n
  stream := r.stream
  responseFormat := r.responseFormat
  stop := r.stop
  frequencyPenalty := r.frequencyPenalty
  presencePenalty := r.presencePenalty
  seed := r.seed
  tools := r.tools
  thinking := r.thinking
  reasoningEffort := r.reasoningEffort

/-! ### Requests of one key -/

/-- Two requests agree on model, messages and the parameters that a key is to tell apart; one completion is asked for
    without saying so too. `user` and `tool_choice` are sent as well, and are not among them. -/
structure SentAlike (r s : ChatCompletionRequest) : Prop where
  model : r.model = s.model
  messages : r.messages = s.messages
  temperature : r.temperature = s.temperature
  topP : r.topP = s.topP
  maxTokens : r.maxTokens = s.maxTokens
  n : r.n.getD 1 = s.n.getD 1
  frequencyPenalty : r.frequencyPenalty = s.frequencyPenalty
  presencePenalty : r.presencePenalty = s.presencePenalty
  seed : r.seed = s.seed
  stop : r.stop = s.stop
  responseFormat : r.responseFormat = s.responseFormat
  thinking : r.thinking = s.thinking
  reasoningEffort : r.reasoningEffort = s.reasoningEffort

def KeysApart (env : GatewayEnv) (projectId : String) (r s : ChatCompletionRequest) : Prop :=
  isCacheable r.plain = true → isCacheable s.plain = true →
    generateCacheKey env projectId r.plain = generateCacheKey env projectId s.plain → SentAlike r s

/-! ### The fields that are hashed -/

def labelledField (label : String) (value : Option String) : Option (List Char) :=
  value.map fun value => (label ++ value).toList

def messageFields (m : Flow.ChatMessage) : List (Option (List Char)) :=
  [some (m.role.json ++ ":").toList, m.content.map String.toList, labelledField ":name:" m.name, some "|".toList]

def parameterFields (r : Flow.ChatCompletionRequest) : List (Option (List Char)) :=
  [labelledField ":temp:" r.temperature, labelledField ":top_p:" r.topP,
    labelledField ":max_tokens:" (r.maxTokens.map toString), labelledField ":response_format:" r.responseFormat,
    labelledField ":stop:" r.stop, labelledField ":freq_pen:" r.frequencyPenalty,
    labelledField ":pres_pen:" r.presencePenalty, labelledField ":seed:" (r.seed.map toString),
    labelledField ":thinking:" (r.thinking.map (·.thinkingType)),
    labelledField ":" (r.thinking.map fun thinking => toString (thinking.budgetTokens.getD 0)),
    labelledField ":reasoning_effort:" r.reasoningEffort]

/-- Which fields are present, and where they end in the text that is hashed. -/
def boundaries (r : Flow.ChatCompletionRequest) : List (List (Option Nat)) × List (Option Nat) :=
  ((r.messages.map messageFields).map cutsOf, cutsOf (parameterFields r))

def ChatMessage.unhashed (m : ChatMessage) :=
  (m.content.map MessageContent.shape, m.toolCalls, m.toolCallId, m.reasoningContent)

/-- What is not hashed, and whether the thinking budget is set. -/
def unhashed (r : ChatCompletionRequest) :=
  (r.messages.map ChatMessage.unhashed, r.thinking.map (·.budgetTokens.isSome))

/-- Cacheable requests of one model and one text have the same fields in it, and agree on what is not hashed. -/
def BoundariesAgree (r s : ChatCompletionRequest) : Prop :=
  isCacheable r.plain = true → isCacheable s.plain = true → r.model = s.model → r.plain.hashed = s.plain.hashed →
    boundaries r.plain = boundaries s.plain ∧ unhashed r = unhashed s

section Fields
variable {label : String} {v w : Option String}

theorem labelledField_inj : labelledField label v = labelledField label w ↔ v = w := by
  refine (Option.map_injective fun x y h => ?_).eq_iff
  have htexts := String.toList_inj.mp h
  rwa [String.append_right_inj] at htexts

theorem labelledField_getD : (labelledField label v).getD [] = (labelled label v).toList := by
  cases v with
  | none => rfl
  | some v => rfl

theorem json_inj {role role' : MessageRole} (h : role.json = role'.json) : role = role' := by
  cases role <;> cases role' <;> first | rfl | exact absurd h (by decide)

theorem messageFields_inj {m m' : Flow.ChatMessage} (h : messageFields m = messageFields m') : m = m' := by
  obtain ⟨role, content, name⟩ := m
  obtain ⟨role', content', name'⟩ := m'
  simp only [messageFields, List.cons.injEq, and_true] at h
  obtain ⟨hrole, hcontent, hname⟩ := h
  have hjson := String.toList_inj.mp (Option.some_inj.mp hrole)
  rw [String.append_left_inj] at hjson
  have htexts : content = content' := Option.map_injective (fun _ _ h => String.toList_inj.mp h) hcontent
  rw [json_inj hjson, htexts, labelledField_inj.mp hname]

theorem textOf_messageFields (m : Flow.ChatMessage) : textOf (messageFields m) = m.hashed.toList := by
  rw [messageFields, textOf_cons, textOf_cons, textOf_cons, textOf_cons, textOf_nil, labelledField_getD,
    Flow.ChatMessage.hashed]
  simp only [String.toList_append, Option.getD_some, List.append_nil, List.append_assoc]
  cases m.content with
  | none => rfl
  | some content => rfl

theorem textOf_parameterFields (r : Flow.ChatCompletionRequest) : textOf (parameterFields r) =
    (labelled ":temp:" r.temperature ++ labelled ":top_p:" r.topP ++ labelled ":max_tokens:" (r.maxTokens.map toString)
      ++ labelled ":response_format:" r.responseFormat ++ labelled ":stop:" r.stop
      ++ labelled ":freq_pen:" r.frequencyPenalty ++ labelled ":pres_pen:" r.presencePenalty
      ++ labelled ":seed:" (r.seed.map toString)
      ++ labelled ":thinking:" (r.thinking.map fun thinking =>
        thinking.thinkingType ++ ":" ++ toString (thinking.budgetTokens.getD 0))
      ++ labelled ":reasoning_effort:" r.reasoningEffort).toList := by
  have hthinking : (labelled ":thinking:" (r.thinking.map fun thinking =>
      thinking.thinkingType ++ ":" ++ toString (thinking.budgetTokens.getD 0))).toList =
        (labelled ":thinking:" (r.thinking.map (·.thinkingType))).toList ++
          (labelled ":" (r.thinking.map fun thinking => toString (thinking.budgetTokens.getD 0))).toList := by
    cases r.thinking with
    | none => rfl
    | some thinking =>
      simp only [Option.map_some, labelled, Option.elim_some, String.toList_append, List.append_assoc]
  simp only [parameterFields, textOf_cons, textOf_nil, labelledField_getD, String.toList_append, hthinking,
    List.append_nil, List.append_assoc]

theorem hashed_text (r : Flow.ChatCompletionRequest) :
    r.hashed.toList = textOf (r.messages.map messageFields).flatten ++ textOf (parameterFields r) := by
  have hmessages :
    (String.join (r.messages.map (·.hashed))).toList = textOf (r.messages.map messageFields).flatten := by
    rw [String.toList_join]
    induction r.messages with
    | nil => rfl
    | cons m messages ih =>
      rw [List.map_cons, List.flatMap_cons, ih, List.map_cons, List.flatten_cons, textOf_append, textOf_messageFields]
  rw [textOf_parameterFields, ← hmessages, ← String.toList_append, Flow.ChatCompletionRequest.hashed]
  simp only [String.append_assoc]

theorem fields_eq {r s : Flow.ChatCompletionRequest} (htext : r.hashed = s.hashed)
    (hcuts : boundaries r = boundaries s) :
    r.messages = s.messages ∧ parameterFields r = parameterFields s := by
  obtain ⟨hmessages, hparameters⟩ := Prod.mk.inj hcuts
  have htexts := congrArg String.toList htext
  rw [hashed_text, hashed_text] at htexts
  obtain ⟨hrecords, hrest⟩ := records_eq hmessages htexts
  refine ⟨List.map_injective_iff.mpr (fun _ _ h => messageFields_inj h) hrecords, ?_⟩
  rw [← List.append_nil (textOf (parameterFields r)), ← List.append_nil (textOf (parameterFields s))] at hrest
  exact (record_eq hparameters hrest).1

end Fields

/-! ### What is not hashed -/

section Unhashed
variable {c c' : MessageContent} {m m' : ChatMessage} {r s : ChatCompletionRequest}

theorem parts_eq {ps qs : List ContentPart} (hshape : ps.map ContentPart.shape = qs.map ContentPart.shape)
    (htext : (ps.filterMap ContentPart.asText).flatMap String.toList =
      (qs.filterMap ContentPart.asText).flatMap String.toList) : ps = qs := by
  induction ps generalizing qs with
  | nil => exact (List.map_eq_nil_iff.mp hshape.symm).symm
  | cons p ps ih =>
    cases qs with
    | nil => cases hshape
    | cons q qs =>
      obtain ⟨hpart, hrest⟩ := List.cons_eq_cons.mp hshape
      cases p with
      | text text =>
        cases q with
        | text text' =>
          obtain ⟨hsame, htexts⟩ := List.append_inj htext (Sum.inl.inj hpart)
          rw [String.toList_inj.mp hsame, ih hrest htexts]
        | imageUrl url detail => cases hpart
        | documentUrl url mediaType filename => cases hpart
      | imageUrl url detail =>
        cases q with
        | text text' => cases hpart
        | imageUrl url' detail' => rw [Sum.inr.inj hpart, ih hrest htext]
        | documentUrl url' mediaType filename => cases hpart
      | documentUrl url mediaType filename =>
        cases q with
        | text text' => cases hpart
        | imageUrl url' detail => cases hpart
        | documentUrl url' mediaType' filename' => rw [Sum.inr.inj hpart, ih hrest htext]

theorem content_eq (hshape : c.shape = c'.shape) (htext : c.asText = c'.asText) : c = c' := by
  cases c with
  | text text =>
    cases c' with
    | text text' => exact congrArg MessageContent.text htext
    | parts parts => cases hshape
  | parts parts =>
    cases c' with
    | text text' => cases hshape
    | parts parts' =>
      have htexts := congrArg String.toList htext
      rw [MessageContent.asText, MessageContent.asText, String.toList_join, String.toList_join] at htexts
      exact congrArg MessageContent.parts (parts_eq (Option.some_inj.mp hshape) htexts)

theorem message_eq (hplain : m.plain = m'.plain) (hunhashed : m.unhashed = m'.unhashed) : m = m' := by
  obtain ⟨role, content, name, toolCalls, toolCallId, reasoningContent⟩ := m
  obtain ⟨role', content', name', toolCalls', toolCallId', reasoningContent'⟩ := m'
  simp only [ChatMessage.plain, Flow.ChatMessage.mk.injEq] at hplain
  simp only [ChatMessage.unhashed, Prod.mk.injEq] at hunhashed
  obtain ⟨rfl, htext, rfl⟩ := hplain
  obtain ⟨hshape, rfl, rfl, rfl⟩ := hunhashed
  have hcontent : content = content' := by
    cases content with
    | none =>
      cases content' with
      | none => rfl
      | some c' => cases htext
    | some c =>
      cases content' with
      | none => cases htext
      | some c' => exact congrArg some (content_eq (Option.some_inj.mp hshape) (Option.some_inj.mp htext))
  rw [hcontent]

theorem messages_eq {ms ms' : List ChatMessage} (hplain : ms.map ChatMessage.plain = ms'.map ChatMessage.plain)
    (hunhashed : ms.map ChatMessage.unhashed = ms'.map ChatMessage.unhashed) : ms = ms' := by
  induction ms generalizing ms' with
  | nil => exact (List.map_eq_nil_iff.mp hplain.symm).symm
  | cons m ms ih =>
    cases ms' with
    | nil => cases hplain
    | cons m' ms' =>
      obtain ⟨hm, hms⟩ := List.cons_eq_cons.mp hplain
      obtain ⟨hm', hms'⟩ := List.cons_eq_cons.mp hunhashed
      rw [message_eq hm hm', ih hms hms']

theorem thinking_eq {t t' : Option ThinkingConfig} (htype : t.map (·.thinkingType) = t'.map (·.thinkingType))
    (hbudget : (t.map fun thinking => toString (thinking.budgetTokens.getD 0)) =
      t'.map fun thinking => toString (thinking.budgetTokens.getD 0))
    (hset : t.map (·.budgetTokens.isSome) = t'.map (·.budgetTokens.isSome)) : t = t' := by
  cases t with
  | none =>
    cases t' with
    | none => rfl
    | some u => cases htype
  | some t =>
    cases t' with
    | none => cases htype
    | some u =>
      obtain ⟨thinkingType, budgetTokens⟩ := t
      obtain ⟨thinkingType', budgetTokens'⟩ := u
      have hvalue : budgetTokens.getD 0 = budgetTokens'.getD 0 := Nat.repr_injective (Option.some_inj.mp hbudget)
      have hsame : thinkingType = thinkingType' := Option.some_inj.mp htype
      cases budgetTokens with
      | none =>
        cases budgetTokens' with
        | none => rw [hsame]
        | some n => cases hset
      | some n =>
        cases budgetTokens' with
        | none => cases hset
        | some n' =>
          have hn : n = n' := hvalue
          rw [hsame, hn]

theorem completions_of_cacheable (h : isCacheable r.plain = true) : r.n.getD 1 = 1 := by
  rw [isCacheable, Bool.and_eq_true] at h
  have hn : r.n.all (· = 1) = true := h.2
  cases hcount : r.n with
  | none => rfl
  | some n =>
    rw [hcount] at hn
    exact of_decide_eq_true hn

theorem sentAlike_of_boundaries (hr : isCacheable r.plain = true) (hs : isCacheable s.plain = true)
    (hmodel : r.model = s.model) (htext : r.plain.hashed = s.plain.hashed)
    (hcuts : boundaries r.plain = boundaries s.plain) (hunhashed : unhashed r = unhashed s) : SentAlike r s := by
  obtain ⟨hmessages, hparameters⟩ := fields_eq htext hcuts
  obtain ⟨hmessages', hthinking⟩ := Prod.mk.inj hunhashed
  simp only [parameterFields, List.cons.injEq, labelledField_inj, and_true] at hparameters
  obtain ⟨htemperature, htopP, hmaxTokens, hformat, hstop, hfrequency, hpresence, hseed, htype, hbudget, heffort⟩ :=
    hparameters
  exact
    { model := hmodel
      messages := messages_eq hmessages hmessages'
      temperature := htemperature
      topP := htopP
      maxTokens := Option.map_injective (fun _ _ h => Nat.repr_injective h) hmaxTokens
      n := (completions_of_cacheable hr).trans (completions_of_cacheable hs).symm
      frequencyPenalty := hfrequency
      presencePenalty := hpresence
      seed := Option.map_injective (fun _ _ h => Int.repr_inj.mp h) hseed
      stop := hstop
      responseFormat := hformat
      thinking := thinking_eq htype hbudget hthinking
      reasoningEffort := heffort }

theorem boundaries_of_sentAlike (h : SentAlike r s) :
    boundaries r.plain = boundaries s.plain ∧ unhashed r = unhashed s := by
  have hmessages : r.plain.messages = s.plain.messages := congrArg (List.map ChatMessage.plain) h.messages
  have hparameters : parameterFields r.plain = parameterFields s.plain := by
    simp only [parameterFields, ChatCompletionRequest.plain, h.temperature, h.topP, h.maxTokens,
      h.responseFormat, h.stop, h.frequencyPenalty, h.presencePenalty, h.seed, h.thinking, h.reasoningEffort]
  rw [boundaries, boundaries, hmessages, hparameters, unhashed, unhashed, h.messages, h.thinking]
  exact ⟨rfl, rfl⟩

end Unhashed

/-! ### Keys -/

theorem key_eq_iff {env : GatewayEnv} {projectId : String} {r s : Flow.ChatCompletionRequest}
    (hlength : ∀ text, (env.sha256Hex text).length = 64) :
    generateCacheKey env projectId r = generateCacheKey env projectId s ↔
      r.model = s.model ∧ (env.sha256Hex r.hashed).toList.take 32 = (env.sha256Hex s.hashed).toList.take 32 := by
  constructor
  · intro h
    have htake : ∀ text, ((env.sha256Hex text).toList.take 32).length = 32 := fun text => by
      rw [List.length_take, String.length_toList, hlength]
      rfl
    have hlists := congrArg String.toList h
    simp only [generateCacheKey, String.toList_append, String.toList_ofList, List.append_assoc,
      List.append_cancel_left_eq] at hlists
    rw [← List.append_assoc, ← List.append_assoc s.model.toList] at hlists
    obtain ⟨hfront, hdigest⟩ := List.append_inj' hlists ((htake _).trans (htake _).symm)
    exact ⟨String.toList_inj.mp (List.append_cancel_right hfront), hdigest⟩
  · rintro ⟨hmodel, hdigest⟩
    rw [generateCacheKey, generateCacheKey, hmodel, hdigest]

/-- Cacheable requests of one key are sent alike exactly if those of one model and one hashed text have the same fields
    in it and agree on what is not hashed. -/
theorem keysApart_iff {env : GatewayEnv} {projectId : String} {r s : ChatCompletionRequest}
    (hlength : ∀ text, (env.sha256Hex text).length = 64)
    (hcollision : (env.sha256Hex r.plain.hashed).toList.take 32 = (env.sha256Hex s.plain.hashed).toList.take 32 →
      r.plain.hashed = s.plain.hashed) :
    KeysApart env projectId r s ↔ BoundariesAgree r s := by
  constructor
  · intro h hr hs hmodel htext
    exact boundaries_of_sentAlike (h hr hs ((key_eq_iff hlength).mpr ⟨hmodel, by rw [htext]⟩))
  · intro h hr hs hkey
    obtain ⟨hmodel, hdigest⟩ := (key_eq_iff hlength).mp hkey
    obtain ⟨hcuts, hunhashed⟩ := h hr hs hmodel (hcollision hdigest)
    exact sentAlike_of_boundaries hr hs hmodel (hcollision hdigest) hcuts hunhashed

/-! ### Requests that share a key -/

def plainRequest (messages : List ChatMessage) : ChatCompletionRequest where
  model := "gpt-4o"
  messages := messages
  temperature := some "0"

def userSays (text : String) : ChatMessage where
  role := .user
  content := some (.text text)

/-- One message with the text of two, or two. -/
def oneMessage : ChatCompletionRequest := plainRequest [userSays "a|\"user\":b"]

def twoMessages : ChatCompletionRequest := plainRequest [userSays "a", userSays "b"]

def aboutImage (url : String) : ChatCompletionRequest :=
  plainRequest [{ role := .user, content := some (.parts [.text "What is this?", .imageUrl url none]) }]

/-- A digest that tells one text from the others. -/
def digestOf (known : String) : GatewayEnv where
  filters := ⟨id, fun _ => none, fun _ => none⟩
  sha256Hex text := String.ofList (List.replicate 64 (if text = known then 'a' else 'b'))
  validateAgainstSchema _ _ := .ok ()

theorem digestOf_length (known text : String) : ((digestOf known).sha256Hex text).length = 64 := by
  rw [digestOf, String.length_ofList, List.length_replicate]

theorem keysApart_iff_messages : KeysApart (digestOf oneMessage.plain.hashed) "p" oneMessage twoMessages ↔
    BoundariesAgree oneMessage twoMessages :=
  keysApart_iff (digestOf_length _) fun _ => by decide

theorem not_keysApart : ¬KeysApart (digestOf oneMessage.plain.hashed) "p" oneMessage twoMessages ∧
    ¬KeysApart (digestOf "") "p" (aboutImage "https://a/cat.png") (aboutImage "https://a/dog.png") := by
  constructor
  · intro h
    have hkey : generateCacheKey (digestOf oneMessage.plain.hashed) "p" oneMessage.plain =
        generateCacheKey (digestOf oneMessage.plain.hashed) "p" twoMessages.plain :=
      (key_eq_iff (digestOf_length _)).mpr
        ⟨rfl, by rw [show oneMessage.plain.hashed = twoMessages.plain.hashed by decide]⟩
    exact absurd (h (by decide) (by decide) hkey).messages (by decide)
  · intro h
    have hkey : generateCacheKey (digestOf "") "p" (aboutImage "https://a/cat.png").plain =
        generateCacheKey (digestOf "") "p" (aboutImage "https://a/dog.png").plain :=
      (key_eq_iff (digestOf_length _)).mpr ⟨rfl, rfl⟩
    exact absurd (h (by decide) (by decide) hkey).messages (by decide)

end Reiver.Flow.CacheKeys
