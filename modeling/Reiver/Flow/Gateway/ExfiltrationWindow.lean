import Reiver.Flow.Gateway.StreamEvents
import Reiver.Lib.Regex

/-! # URLs across deltas

The rolling buffer of `StreamChunkProcessor` against the patterns of `guardrails.rs`. However a response is cut, the
buffer holds the end of its text; a URL is reported in time exactly if the buffer still holds one when the first is
complete (`scannedThroughout_iff`). -/

namespace Reiver.Flow

/-! ### The patterns -/

/-- A lower-case letter in either case; the long s is an s. -/
def foldsTo (c d : Char) : Bool := d == c || d == c.toUpper || (c == 's' && d == 'ſ')

def folded (s : String) : Regex := .all (s.toList.map fun c => .one (foldsTo c))

/-- `\s`. -/
def isWhitespace (c : Char) : Bool :=
  let n := c.toNat
  (9 ≤ n && n ≤ 13) || n == 0x20 || n == 0x85 || n == 0xa0 || n == 0x1680 || (0x2000 ≤ n && n ≤ 0x200a) ||
    n == 0x2028 || n == 0x2029 || n == 0x202f || n == 0x205f || n == 0x3000

def isQuote (c : Char) : Bool := "\"'".toList.contains c

def markdownImage : Regex :=
  .all [.literal "![", .star (.one (· != ']')), .literal "](", folded "http", .opt (folded "s"), .literal "://",
    .plus (.one (· != ')')), .literal ")"]

def htmlImage : Regex :=
  .all [.literal "<", folded "img", .plus (.one (· != '>')), folded "src", .star (.one isWhitespace), .literal "=",
    .star (.one isWhitespace), .opt (.one isQuote), folded "http", .opt (folded "s"), .literal "://",
    .plus (.one fun c => !(isQuote c || isWhitespace c || c == '>'))]

def exfiltrationPatterns : List Regex := [markdownImage, htmlImage]

def Occurs (text : List Char) : Prop := ∃ r ∈ exfiltrationPatterns, ∃ w, w <:+: text ∧ r.Matches w

def OccursShort (text : List Char) : Prop :=
  ∃ r ∈ exfiltrationPatterns, ∃ w, w <:+: text ∧ r.Matches w ∧ (String.ofList w).utf8ByteSize ≤ 2048

/-! ### The buffer by bytes -/

/-- What is left of a text without its first bytes, if a character ends there. -/
def dropBytes : Nat → List Char → Option (List Char)
  | 0, text => some text
  | _ + 1, [] => none
  | n + 1, c :: text => if c.utf8Size ≤ n + 1 then dropBytes (n + 1 - c.utf8Size) text else none

def isCharBoundary (text : List Char) (i : Nat) : Bool := (dropBytes i text).isSome

/-- The buffer with its front drained; `none` is the panic of a range that ends inside a character. -/
def trimBuffer (buf : List Char) : Option (List Char) :=
  let len := (String.ofList buf).utf8ByteSize
  if len > 2048 then
    let drainTarget := len - 2048
    let drain := ((List.range' drainTarget (len - drainTarget)).find? (isCharBoundary buf)).getD len
    dropBytes drain buf
  else some buf

/-! ### A response in deltas -/

section Response
variable (F : TextFilters) (policy : OutputPolicy) (clientIncludeUsage : Bool)

def deltaOf (chunk : ChatCompletionChunk) : List Char := ((maskChunk F policy chunk).deltaContent.getD "").toList

def textUpTo (chunks : List ChatCompletionChunk) (k : Nat) : List Char := (chunks.take k).flatMap (deltaOf F policy)

def processorAt (chunks : List ChatCompletionChunk) (k : Nat) : StreamProcessor :=
  ((chunks.map Except.ok).take k).foldl (StreamProcessor.process F policy) {}

/-- A URL of at most 2048 bytes is reported by the time it is complete, the front is drained without a panic, and of
    each delta nothing is drained before it was scanned. -/
structure ScannedThroughout (chunks : List ChatCompletionChunk) : Prop where
  timely : ∀ k, OccursShort (textUpTo F policy chunks (k + 1)) →
    ∃ j ≤ k, ∃ event ∈ (sseStream F policy clientIncludeUsage {} (chunks.map Except.ok))[j]?, event.IsBlock
  trimmed : ∀ k, ∀ chunk ∈ chunks[k]?,
    trimBuffer ((processorAt F policy chunks k).exfiltrationBuffer ++ deltaOf F policy chunk) =
    some (processorAt F policy chunks (k + 1)).exfiltrationBuffer
  scanned : ∀ k, ∀ chunk ∈ chunks[k]?,
    deltaOf F policy chunk <:+ (processorAt F policy chunks (k + 1)).exfiltrationBuffer

/-- No delta is longer than the buffer, and where the first short URL is complete the buffer holds one. -/
structure FitsWindow (chunks : List ChatCompletionChunk) : Prop where
  deltas : ∀ chunk ∈ chunks, (String.ofList (deltaOf F policy chunk)).utf8ByteSize ≤ 2048
  held : ∀ k, OccursShort (textUpTo F policy chunks (k + 1)) → ¬OccursShort (textUpTo F policy chunks k) →
    Occurs (boundedBuffer (textUpTo F policy chunks (k + 1)))

end Response

section Buffer
variable {text rest : List Char} {c : Char} {i : Nat}

theorem size_cons : (String.ofList (c :: text)).utf8ByteSize = c.utf8Size + (String.ofList text).utf8ByteSize := by
  rw [String.ofList_cons, String.utf8ByteSize_append, String.utf8ByteSize_singleton]

theorem size_append : (String.ofList (text ++ rest)).utf8ByteSize =
    (String.ofList text).utf8ByteSize + (String.ofList rest).utf8ByteSize := by
  rw [String.ofList_append, String.utf8ByteSize_append]

theorem size_le_of_part (h : rest <:+: text) :
    (String.ofList rest).utf8ByteSize ≤ (String.ofList text).utf8ByteSize := by
  obtain ⟨before, after, rfl⟩ := h
  rw [size_append, size_append]
  omega

theorem boundedBuffer_suffix (text : List Char) : boundedBuffer text <:+ text := by
  induction text with
  | nil => exact List.suffix_rfl
  | cons c text ih =>
    rw [boundedBuffer]
    split
    · exact List.suffix_rfl
    · exact ih.trans (List.suffix_cons c text)

theorem boundedBuffer_size (text : List Char) : (String.ofList (boundedBuffer text)).utf8ByteSize ≤ 2048 := by
  induction text with
  | nil => decide
  | cons c text ih =>
    rw [boundedBuffer]
    split
    · next hfits => exact hfits
    · exact ih

theorem suffix_boundedBuffer (h : rest <:+ text) (hsize : (String.ofList rest).utf8ByteSize ≤ 2048) :
    rest <:+ boundedBuffer text := by
  induction text with
  | nil => exact h
  | cons c text ih =>
    rw [boundedBuffer]
    split
    · exact h
    · next hlong =>
      rcases List.suffix_cons_iff.mp h with rfl | h
      · exact absurd hsize hlong
      · exact ih h

theorem suffix_boundedBuffer_iff :
    rest <:+ boundedBuffer (text ++ rest) ↔ (String.ofList rest).utf8ByteSize ≤ 2048 := by
  constructor
  · intro h
    exact (size_le_of_part h.isInfix).trans (boundedBuffer_size _)
  · exact suffix_boundedBuffer (List.suffix_append text rest)

end Buffer

section Trim
variable {text a b rest : List Char} {i : Nat}

theorem dropBytes_cons {c : Char} : dropBytes (c.utf8Size + i) (c :: text) = dropBytes i text := by
  obtain ⟨n, hn⟩ := Nat.exists_eq_add_of_lt (Char.utf8Size_pos c)
  have hsucc : c.utf8Size + i = n + i + 1 := by omega
  rw [hsucc, dropBytes, if_pos (by omega)]
  exact congrArg (dropBytes · text) (by omega)

theorem dropBytes_append (a b : List Char) : dropBytes (String.ofList a).utf8ByteSize (a ++ b) = some b := by
  induction a with
  | nil => exact dropBytes.eq_1 b
  | cons c a ih => rw [size_cons, List.cons_append, dropBytes_cons, ih]

theorem exists_of_dropBytes (h : dropBytes i text = some rest) :
    ∃ a, a ++ rest = text ∧ (String.ofList a).utf8ByteSize = i := by
  induction text generalizing i with
  | nil =>
    cases i with
    | zero => exact ⟨[], Option.some_inj.mp h.symm, rfl⟩
    | succ n => cases h
  | cons c text ih =>
    cases i with
    | zero => exact ⟨[], Option.some_inj.mp h.symm, rfl⟩
    | succ n =>
      rw [dropBytes] at h
      split at h
      · next hc =>
        obtain ⟨a, ha, hsize⟩ := ih h
        exact ⟨c :: a, by rw [List.cons_append, ha], by rw [size_cons, hsize]; omega⟩
      · cases h

theorem isCharBoundary_iff :
    isCharBoundary text i = true ↔ ∃ a b, a ++ b = text ∧ (String.ofList a).utf8ByteSize = i := by
  rw [isCharBoundary, Option.isSome_iff_exists]
  constructor
  · rintro ⟨b, hb⟩
    obtain ⟨a, ha, hsize⟩ := exists_of_dropBytes hb
    exact ⟨a, b, ha, hsize⟩
  · rintro ⟨a, b, rfl, rfl⟩
    exact ⟨b, dropBytes_append a b⟩

theorem boundedBuffer_of_le (h : (String.ofList text).utf8ByteSize ≤ 2048) : boundedBuffer text = text := by
  cases text with
  | nil => rfl
  | cons c text => rw [boundedBuffer, if_pos h]

theorem le_boundary (hab : a ++ boundedBuffer text = text) (hboundary : isCharBoundary text i = true)
    (hi : (String.ofList text).utf8ByteSize ≤ i + 2048) : (String.ofList a).utf8ByteSize ≤ i := by
  obtain ⟨a', b', htext, hsize⟩ := isCharBoundary_iff.mp hboundary
  have hlen := congrArg (fun text => (String.ofList text).utf8ByteSize) htext
  have hlen' := congrArg (fun text => (String.ofList text).utf8ByteSize) hab
  simp only [size_append] at hlen hlen'
  have hsuffix := suffix_boundedBuffer ⟨a', htext⟩ (by omega)
  have hle := size_le_of_part hsuffix.isInfix
  omega

theorem trimBuffer_eq (text : List Char) : trimBuffer text = some (boundedBuffer text) := by
  rw [trimBuffer]
  dsimp only
  split
  swap
  · next hfits => rw [boundedBuffer_of_le (by omega)]
  next hlong =>
  obtain ⟨a, hab⟩ := boundedBuffer_suffix text
  have hlen := congrArg (fun text => (String.ofList text).utf8ByteSize) hab
  simp only [size_append] at hlen
  have hbounded := boundedBuffer_size text
  have hboundary : isCharBoundary text (String.ofList a).utf8ByteSize = true :=
    isCharBoundary_iff.mpr ⟨a, _, hab, rfl⟩
  have hdrain : ((List.range' ((String.ofList text).utf8ByteSize - 2048) ((String.ofList text).utf8ByteSize -
      ((String.ofList text).utf8ByteSize - 2048))).find? (isCharBoundary text)).getD (String.ofList text).utf8ByteSize =
        (String.ofList a).utf8ByteSize := by
    cases hfind : (List.range' ((String.ofList text).utf8ByteSize - 2048) ((String.ofList text).utf8ByteSize -
        ((String.ofList text).utf8ByteSize - 2048))).find? (isCharBoundary text) with
    | none =>
      have hnone := List.find?_eq_none.mp hfind (String.ofList a).utf8ByteSize
      rw [List.mem_range'_1] at hnone
      rw [Option.getD_none]
      by_contra hne
      exact hnone (by omega) hboundary
    | some i =>
      obtain ⟨hi, hmem, hbefore⟩ := List.find?_range'_eq_some.mp hfind
      rw [List.mem_range'_1] at hmem
      have hle := le_boundary hab hi (by omega)
      rw [Option.getD_some]
      by_contra hne
      have hnot := hbefore (String.ofList a).utf8ByteSize (by omega) (by omega)
      rw [hboundary] at hnot
      cases hnot
  rw [hdrain]
  have hdrop := dropBytes_append a (boundedBuffer text)
  rwa [hab] at hdrop

end Trim

/-! ### The events of a response -/

section Events
variable {F : TextFilters} {policy : OutputPolicy} {clientIncludeUsage : Bool} {chunks : List ChatCompletionChunk}
  {chunk : ChatCompletionChunk} {k : Nat}

theorem maskChunk_toolCallNames : (maskChunk F policy chunk).toolCallNames = chunk.toolCallNames := by
  rw [maskChunk]
  split
  · rw [ChatCompletionChunk.toolCallNames, List.flatMap_map]
    rfl
  · rfl

theorem scannedText_of_tools (h : chunk.toolCallNames = []) :
    scannedText F policy (.ok chunk) = deltaOf F policy chunk := by
  rw [scannedText, maskChunk_toolCallNames, h, if_neg fun hnames => ?_]
  · rfl
  · obtain ⟨name, hname, -⟩ := hnames
    cases hname

theorem flatMap_scannedText (htools : ∀ chunk ∈ chunks, chunk.toolCallNames = []) (k : Nat) :
    ((chunks.map Except.ok).take k).flatMap (scannedText F policy) = textUpTo F policy chunks k := by
  rw [← List.map_take, List.flatMap_map, textUpTo]
  exact List.flatMap_congr fun chunk hchunk => scannedText_of_tools (htools chunk (List.mem_of_mem_take hchunk))

theorem textUpTo_succ (h : chunks[k]? = some chunk) :
    textUpTo F policy chunks (k + 1) = textUpTo F policy chunks k ++ deltaOf F policy chunk := by
  rw [textUpTo, List.take_add_one, h, List.flatMap_append, Option.toList_some, List.flatMap_singleton, ← textUpTo]

theorem textUpTo_of_none (h : chunks[k]? = none) : textUpTo F policy chunks (k + 1) = textUpTo F policy chunks k := by
  rw [textUpTo, List.take_add_one, h, List.flatMap_append]
  exact List.append_nil _

theorem processorAt_buffer (hblock : policy.guardrailConfig.blockExfiltrationUrls = true)
    (htools : ∀ chunk ∈ chunks, chunk.toolCallNames = []) (k : Nat) :
    (processorAt F policy chunks k).exfiltrationBuffer = boundedBuffer (textUpTo F policy chunks k) := by
  have hbuffers : Buffers policy (processorAt F policy chunks k)
      ([] ++ ((chunks.map Except.ok).take k).flatMap (scannedText F policy)) := buffers_foldl fun _ => rfl
  rw [hbuffers hblock, List.nil_append, flatMap_scannedText htools]

theorem blocked_iff (hblock : policy.guardrailConfig.blockExfiltrationUrls = true)
    (hdetect : ∀ text, (F.detectExfiltrationInText text).isSome = true ↔ Occurs text.toList)
    (htools : ∀ chunk ∈ chunks, chunk.toolCallNames = []) (k : Nat) :
    (∃ event ∈ (sseStream F policy clientIncludeUsage {} (chunks.map Except.ok))[k]?, event.IsBlock) ↔
      ∃ chunk ∈ chunks[k]?, (maskChunk F policy chunk).deltaContent.isSome = true ∧
        Occurs (boundedBuffer (textUpTo F policy chunks (k + 1))) := by
  have hevent : (∃ event ∈ (sseStream F policy clientIncludeUsage {} (chunks.map Except.ok))[k]?, event.IsBlock) ↔
      ∃ item ∈ (chunks.map Except.ok)[k]?,
        ItemBreaks F policy (((chunks.map Except.ok).take k).flatMap (scannedText F policy)) item :=
    exists_event (fun _ _ _ h => event_isBlock h) k
  rw [hevent, flatMap_scannedText htools, List.getElem?_map]
  cases hchunk : chunks[k]? with
  | none => simp
  | some chunk =>
    rw [textUpTo_succ hchunk, deltaOf]
    simp only [Option.map_some, Option.mem_def, Option.some_inj, exists_eq_left']
    rw [ItemBreaks, ChunkBreaks, maskChunk_toolCallNames, htools chunk (List.mem_of_getElem? hchunk)]
    cases (maskChunk F policy chunk).deltaContent with
    | none => simp
    | some content => simp [hblock, hdetect]

/-! ### Detection -/

theorem OccursShort.mono {text text' : List Char} (h : OccursShort text) (hpart : text <:+: text') :
    OccursShort text' := by
  obtain ⟨r, hr, w, hw, hmatch, hsize⟩ := h
  exact ⟨r, hr, w, hw.trans hpart, hmatch, hsize⟩

theorem occursShort_of_buffer {text : List Char} (h : Occurs (boundedBuffer text)) : OccursShort text := by
  obtain ⟨r, hr, w, hw, hmatch⟩ := h
  have hsize := (size_le_of_part hw).trans (boundedBuffer_size text)
  exact ⟨r, hr, w, hw.trans (boundedBuffer_suffix text).isInfix, hmatch, hsize⟩

theorem textUpTo_mono {j : Nat} (h : j ≤ k) : textUpTo F policy chunks j <+: textUpTo F policy chunks k := by
  obtain ⟨rest, hrest⟩ := List.take_prefix_take_left (l := chunks) h
  exact ⟨rest.flatMap (deltaOf F policy), by rw [textUpTo, textUpTo, ← hrest, List.flatMap_append]⟩

theorem not_occursShort_nil : ¬OccursShort [] := by
  rintro ⟨r, hr, w, hw, hmatch, -⟩
  rw [List.infix_nil.mp hw] at hmatch
  have hnullable := Regex.matches_nil_iff.mp hmatch
  rcases List.mem_cons.mp hr with rfl | hr
  · exact absurd hnullable (by decide)
  · rw [List.mem_singleton.mp hr] at hnullable
    exact absurd hnullable (by decide)

theorem exists_chunk (h : OccursShort (textUpTo F policy chunks (k + 1)))
    (hnot : ¬OccursShort (textUpTo F policy chunks k)) :
    ∃ chunk ∈ chunks[k]?, (maskChunk F policy chunk).deltaContent.isSome = true := by
  cases hchunk : chunks[k]? with
  | none => exact absurd (textUpTo_of_none hchunk ▸ h) hnot
  | some chunk =>
    refine ⟨chunk, rfl, ?_⟩
    rw [textUpTo_succ hchunk, deltaOf] at h
    cases hdelta : (maskChunk F policy chunk).deltaContent with
    | none =>
      rw [hdelta, Option.getD_none, String.toList_empty, List.append_nil] at h
      exact absurd h hnot
    | some content => rfl

theorem timely_iff (hblock : policy.guardrailConfig.blockExfiltrationUrls = true)
    (hdetect : ∀ text, (F.detectExfiltrationInText text).isSome = true ↔ Occurs text.toList)
    (htools : ∀ chunk ∈ chunks, chunk.toolCallNames = []) :
    (∀ k, OccursShort (textUpTo F policy chunks (k + 1)) →
      ∃ j ≤ k, ∃ event ∈ (sseStream F policy clientIncludeUsage {} (chunks.map Except.ok))[j]?, event.IsBlock) ↔
    ∀ k, OccursShort (textUpTo F policy chunks (k + 1)) → ¬OccursShort (textUpTo F policy chunks k) →
      Occurs (boundedBuffer (textUpTo F policy chunks (k + 1))) := by
  simp only [blocked_iff hblock hdetect htools]
  constructor
  · intro h k hshort hnot
    obtain ⟨j, hj, -, -, -, hheld⟩ := h k hshort
    rcases Nat.lt_or_eq_of_le hj with hlt | rfl
    · exact absurd ((occursShort_of_buffer hheld).mono (textUpTo_mono hlt).isInfix) hnot
    · exact hheld
  · intro h k hshort
    induction k with
    | zero =>
      obtain ⟨chunk, hchunk, hdelta⟩ := exists_chunk hshort not_occursShort_nil
      exact ⟨0, Nat.le_refl 0, chunk, hchunk, hdelta, h 0 hshort not_occursShort_nil⟩
    | succ k ih =>
      by_cases hbefore : OccursShort (textUpTo F policy chunks (k + 1))
      · obtain ⟨j, hj, hblocked⟩ := ih hbefore
        exact ⟨j, Nat.le_succ_of_le hj, hblocked⟩
      · obtain ⟨chunk, hchunk, hdelta⟩ := exists_chunk hshort hbefore
        exact ⟨k + 1, Nat.le_refl _, chunk, hchunk, hdelta, h (k + 1) hshort hbefore⟩

/-- URLs are reported in time and every byte is scanned exactly if no delta is longer than the buffer and the first
    short URL still stands in it where it is complete. -/
theorem scannedThroughout_iff (hblock : policy.guardrailConfig.blockExfiltrationUrls = true)
    (hdetect : ∀ text, (F.detectExfiltrationInText text).isSome = true ↔ Occurs text.toList)
    (htools : ∀ chunk ∈ chunks, chunk.toolCallNames = []) :
    ScannedThroughout F policy clientIncludeUsage chunks ↔ FitsWindow F policy chunks := by
  have hbuffer := processorAt_buffer (F := F) hblock htools
  have htimely := @timely_iff F policy clientIncludeUsage chunks hblock hdetect htools
  constructor
  · intro h
    refine ⟨fun chunk hchunk => ?_, htimely.mp h.timely⟩
    obtain ⟨k, hk⟩ := List.mem_iff_getElem?.mp hchunk
    have hscanned := h.scanned k chunk hk
    rwa [hbuffer, textUpTo_succ hk, suffix_boundedBuffer_iff] at hscanned
  · intro h
    refine ⟨htimely.mpr h.held, fun k chunk hk => ?_, fun k chunk hk => ?_⟩
    · rw [hbuffer, hbuffer, textUpTo_succ hk, trimBuffer_eq, boundedBuffer_append]
    · rw [hbuffer, textUpTo_succ hk, suffix_boundedBuffer_iff]
      exact h.deltas chunk (List.mem_of_getElem? hk)

end Events

/-! ### A URL in front of a long delta -/

def patternFilters : TextFilters where
  toLowercase text := text.map Char.toLower
  redactIfChanged _ := none
  detectExfiltrationInText text :=
    if exfiltrationPatterns.any (·.occursIn text.toList) then
      some "Response blocked: potential data exfiltration detected via external URL reference."
    else none

theorem patternFilters_detect (text : String) :
    (patternFilters.detectExfiltrationInText text).isSome = true ↔ Occurs text.toList := by
  have hany : exfiltrationPatterns.any (·.occursIn text.toList) = true ↔ Occurs text.toList := by
    simp only [List.any_eq_true, Regex.occursIn_iff, Occurs]
  rw [← hany]
  show (if exfiltrationPatterns.any (·.occursIn text.toList) = true then some _ else none).isSome = true ↔ _
  split
  · next hoccurs => exact iff_of_true rfl hoccurs
  · next hnot => exact iff_of_false Bool.false_ne_true hnot

def blockingPolicy : OutputPolicy where
  guardrailConfig := { blockExfiltrationUrls := true }

def contentChunk (content : String) : ChatCompletionChunk where
  model := "gpt-4o"
  choices := [{ content := some content }]

def leakingUrl : String := "![a](http://b.c)"

theorem scannedThroughout_iff_leak :
    ScannedThroughout patternFilters blockingPolicy false [contentChunk "![a](htt", contentChunk "p://b.c)"] ↔
      FitsWindow patternFilters blockingPolicy [contentChunk "![a](htt", contentChunk "p://b.c)"] :=
  scannedThroughout_iff rfl patternFilters_detect (by decide)

theorem length_le_size (text : List Char) : text.length ≤ (String.ofList text).utf8ByteSize := by
  induction text with
  | nil => exact Nat.zero_le _
  | cons c text ih =>
    have hpos := Char.utf8Size_pos c
    rw [size_cons, List.length_cons]
    omega

theorem not_occurs_blank {text : List Char} (h : ∀ c ∈ text, c = ' ') : ¬Occurs text := by
  rintro ⟨r, hr, w, hw, hmatch⟩
  have hmem : ∃ c ∈ w, c ≠ ' ' := by
    rcases List.mem_cons.mp hr with rfl | hr
    · exact ⟨'!', (Regex.matches_literal_seq hmatch).subset (by decide), by decide⟩
    · rw [List.mem_singleton.mp hr] at hmatch
      exact ⟨'<', (Regex.matches_literal_seq hmatch).subset (by decide), by decide⟩
  obtain ⟨c, hc, hne⟩ := hmem
  exact hne (h c (hw.subset hc))

theorem textUpTo_contentChunk (content : String) :
    textUpTo patternFilters blockingPolicy [contentChunk content] 1 = content.toList := List.append_nil _

theorem toolCallNames_contentChunk (content : String) : ∀ chunk ∈ [contentChunk content], chunk.toolCallNames = [] := by
  intro chunk hchunk
  rw [List.mem_singleton.mp hchunk]
  rfl

/-- A URL with 2048 blanks behind it in one delta is drained before it is looked for. -/
theorem not_scannedThroughout : ¬ScannedThroughout patternFilters blockingPolicy false
    [contentChunk (leakingUrl ++ String.ofList (List.replicate 2048 ' '))] := by
  intro h
  have htext : textUpTo patternFilters blockingPolicy
      [contentChunk (leakingUrl ++ String.ofList (List.replicate 2048 ' '))] 1 =
        leakingUrl.toList ++ List.replicate 2048 ' ' := by
    rw [textUpTo_contentChunk, String.toList_append, String.toList_ofList]
  have hshort : OccursShort (leakingUrl.toList ++ List.replicate 2048 ' ') :=
    ⟨markdownImage, List.mem_cons_self, leakingUrl.toList, (List.prefix_append _ _).isInfix,
      Regex.accepts_iff.mp (by decide), by decide⟩
  obtain ⟨j, hj, hblocked⟩ := h.timely 0 (htext ▸ hshort)
  obtain ⟨-, -, -, hheld⟩ := (blocked_iff rfl patternFilters_detect (toolCallNames_contentChunk _) j).mp hblocked
  rw [Nat.le_zero.mp hj, htext] at hheld
  have hsuffix : boundedBuffer (leakingUrl.toList ++ List.replicate 2048 ' ') <:+ List.replicate 2048 ' ' := by
    refine List.suffix_of_suffix_length_le (boundedBuffer_suffix _) (List.suffix_append _ _) ?_
    rw [List.length_replicate]
    exact (length_le_size _).trans (boundedBuffer_size _)
  exact not_occurs_blank (fun c hc => List.eq_of_mem_replicate (hsuffix.subset hc)) hheld

end Reiver.Flow
