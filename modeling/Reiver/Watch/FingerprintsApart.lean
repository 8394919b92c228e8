import Reiver.Lib.Fields
import Reiver.Watch.Fingerprint
import Std.Data.String.ToInt

/-! # When fingerprints keep errors apart

The texts that are hashed of an error follow each other with nothing between them. What they say of the error can be
told from the hash when it is known where each of them ends. -/

namespace Reiver.Watch

open Lib.Fields (textOf cutsOf records_eq)

/-! ### What an error is grouped by -/

def inAppFrames (payload : ExceptionPayload) : List StackFrame :=
  ((payload.exception.bind (·.stacktrace)).getD []).filter (!isLibraryFrame ·)

/-- The type of the exception, unless it is too general to group by. -/
def groupingType (payload : ExceptionPayload) : Option String :=
  (payload.exception.map (·.exceptionType)).filter (!isGenericType ·)

/-- Every frame of the application has a function. -/
def Resolved (payload : ExceptionPayload) : Prop := ∀ frame ∈ inAppFrames payload, frame.function.isSome

def Unresolved (payload : ExceptionPayload) : Prop := ∀ frame ∈ inAppFrames payload, frame.function = none

instance (payload : ExceptionPayload) : Decidable (Resolved payload) :=
  inferInstanceAs (Decidable (∀ frame ∈ inAppFrames payload, frame.function.isSome))

instance (payload : ExceptionPayload) : Decidable (Unresolved payload) :=
  inferInstanceAs (Decidable (∀ frame ∈ inAppFrames payload, frame.function = none))

def fileAndFunction (frame : StackFrame) : Option String × Option String :=
  (frame.filename.map normalizeFilePath, frame.function.map normalizeFunctionName)

def fileLineColumn (frame : StackFrame) : Option String × Option Int × Option Int :=
  (frame.filename.map normalizeFilePath, frame.lineno, frame.colno)

/-- Errors of functions that are known are the same: the type and the functions agree. -/
def SameFunctions (p q : ExceptionPayload) : Prop :=
  groupingType p = groupingType q ∧ (inAppFrames p).map fileAndFunction = (inAppFrames q).map fileAndFunction

/-- Errors of functions that are not known are the same: the type, the message and the places agree. -/
def SamePlaces (p q : ExceptionPayload) : Prop :=
  groupingType p = groupingType q ∧ normalizeMessage p.message = normalizeMessage q.message ∧
    (inAppFrames p).map fileLineColumn = (inAppFrames q).map fileLineColumn

/-! ### The fields that are hashed -/

def field (text : Option String) : Option (List Char) := text.map String.toList

def functionFields (frame : StackFrame) : List (Option (List Char)) :=
  [field (fileAndFunction frame).1, field (fileAndFunction frame).2]

def placeFields (frame : StackFrame) : List (Option (List Char)) :=
  [field (fileLineColumn frame).1, field ((fileLineColumn frame).2.1.map toString),
    field ((fileLineColumn frame).2.2.map toString)]

theorem field_inj {s t : Option String} : field s = field t ↔ s = t := by
  constructor
  · intro h
    cases s <;> cases t <;> simp_all [field, String.toList_inj]
  · exact congrArg field

theorem map_toString_inj {m n : Option Int} : m.map toString = n.map toString ↔ m = n :=
  (Option.map_injective fun _ _ h => Int.repr_inj.mp h).eq_iff

theorem functionFields_inj {f g : StackFrame} :
    functionFields f = functionFields g ↔ fileAndFunction f = fileAndFunction g := by
  simp [functionFields, field_inj, Prod.ext_iff]

theorem placeFields_inj {f g : StackFrame} :
    placeFields f = placeFields g ↔ fileLineColumn f = fileLineColumn g := by
  simp [placeFields, field_inj, map_toString_inj, Prod.ext_iff]

/-- The records of an error of known functions. -/
def functionRecords (payload : ExceptionPayload) : List (List (Option (List Char))) :=
  [field (groupingType payload)] :: (inAppFrames payload).map functionFields

/-- The records of an error of unknown functions. -/
def placeRecords (payload : ExceptionPayload) : List (List (Option (List Char))) :=
  [field (groupingType payload)] :: [field (some (normalizeMessage payload.message))] ::
    (inAppFrames payload).map placeFields

/-- Where the fields of the functions end in the text that is hashed. -/
def functionCuts (payload : ExceptionPayload) : List (List (Option Nat)) := (functionRecords payload).map cutsOf

def placeCuts (payload : ExceptionPayload) : List (List (Option Nat)) := (placeRecords payload).map cutsOf

theorem map_eq_map_iff_of_inj {A B C : Type} {f : A → B} {g : A → C} (h : ∀ {a b}, f a = f b ↔ g a = g b)
    {l m : List A} : l.map f = m.map f ↔ l.map g = m.map g := by
  induction l generalizing m with
  | nil => simp
  | cons a l ih =>
    cases m with
    | nil => simp
    | cons b m => simp [h, ih]

theorem functionRecords_inj {p q : ExceptionPayload} : functionRecords p = functionRecords q ↔ SameFunctions p q := by
  simp [functionRecords, SameFunctions, field_inj, map_eq_map_iff_of_inj functionFields_inj]

theorem placeRecords_inj {p q : ExceptionPayload} : placeRecords p = placeRecords q ↔ SamePlaces p q := by
  simp [placeRecords, SamePlaces, field_inj, map_eq_map_iff_of_inj placeFields_inj]

/-! ### The text that is hashed -/

def hashedText (payload : ExceptionPayload) : String := String.join (fingerprintParts payload)

theorem toList_join (parts : List String) : (String.join parts).toList = parts.flatMap String.toList := by
  induction parts with
  | nil => rfl
  | cons part parts ih => simp [String.join_cons, ih]

theorem fingerprintParts_eq (payload : ExceptionPayload) :
    fingerprintParts payload = (groupingType payload).toList ++
      if (inAppFrames payload).isEmpty then [normalizeMessage payload.message]
      else if (inAppFrames payload).any (·.function.isSome) then (inAppFrames payload).flatMap resolvedParts
      else normalizeMessage payload.message :: (inAppFrames payload).flatMap unresolvedParts := by
  have htype : (payload.exception.toList.map (·.exceptionType)).filter (!isGenericType ·) =
      (groupingType payload).toList := by
    unfold groupingType
    cases payload.exception with
    | none => rfl
    | some exception => cases h : isGenericType exception.exceptionType <;> simp [Option.filter, h]
  rw [← htype]
  rfl

theorem resolvedParts_text {frame : StackFrame} (h : frame.function.isSome) :
    (resolvedParts frame).flatMap String.toList = textOf (functionFields frame) := by
  obtain ⟨function, hf⟩ := Option.isSome_iff_exists.mp h
  cases hn : frame.filename <;> simp [resolvedParts, functionFields, fileAndFunction, field, hf, hn]

theorem unresolvedParts_text {frame : StackFrame} (h : frame.function = none) :
    (unresolvedParts frame).flatMap String.toList = textOf (placeFields frame) := by
  cases hn : frame.filename <;> cases hl : frame.lineno <;> cases hc : frame.colno <;>
    simp [unresolvedParts, placeFields, fileLineColumn, field, h, hn, hl, hc]

theorem frames_text {parts : StackFrame → List String} {fields : StackFrame → List (Option (List Char))}
    {frames : List StackFrame} (h : ∀ f ∈ frames, (parts f).flatMap String.toList = textOf (fields f)) :
    (frames.flatMap parts).flatMap String.toList = textOf (frames.map fields).flatten := by
  induction frames with
  | nil => rfl
  | cons frame frames ih =>
    have hframe := h frame (List.mem_cons_self ..)
    have htail := ih fun f hf => h f (List.mem_cons_of_mem _ hf)
    simp [hframe, htail]

theorem groupingType_text (payload : ExceptionPayload) :
    (groupingType payload).toList.flatMap String.toList = (field (groupingType payload)).getD [] := by
  cases groupingType payload <;> simp [field]

/-- What is hashed besides the functions: the message of an error without frames of the application. -/
def unframed (payload : ExceptionPayload) : List Char :=
  if (inAppFrames payload).isEmpty then (normalizeMessage payload.message).toList else []

theorem hashedText_resolved {payload : ExceptionPayload} (h : Resolved payload) :
    (hashedText payload).toList = textOf (functionRecords payload).flatten ++ unframed payload := by
  have hframes := frames_text fun f hf => resolvedParts_text (h f hf)
  rw [hashedText, toList_join, fingerprintParts_eq, List.flatMap_append, groupingType_text]
  cases hl : inAppFrames payload with
  | nil => simp [functionRecords, unframed, hl]
  | cons frame frames =>
    have hany : (frame :: frames).any (·.function.isSome) = true := by
      simp [h frame (by rw [hl]; exact List.mem_cons_self ..)]
    rw [hl] at hframes
    simp only [List.isEmpty_cons, Bool.false_eq_true, if_false, hany, if_true, hframes]
    simp [functionRecords, unframed, hl]

theorem hashedText_unresolved {payload : ExceptionPayload} (h : Unresolved payload) :
    (hashedText payload).toList = textOf (placeRecords payload).flatten := by
  have hframes := frames_text fun f hf => unresolvedParts_text (h f hf)
  have hany : (inAppFrames payload).any (·.function.isSome) = false := by
    rw [List.any_eq_false]
    intro f hf
    simp [h f hf]
  rw [hashedText, toList_join, fingerprintParts_eq, List.flatMap_append, groupingType_text, hany]
  cases hl : inAppFrames payload with
  | nil => simp [placeRecords, field, hl]
  | cons frame frames =>
    rw [hl] at hframes
    simp only [List.isEmpty_cons, Bool.false_eq_true, if_false]
    rw [List.flatMap_cons, hframes]
    simp [placeRecords, field, hl]

/-! ### Errors with one fingerprint -/

theorem sameFunctions_of_cuts {p q : ExceptionPayload} (hp : Resolved p) (hq : Resolved q)
    (htext : hashedText p = hashedText q) (hcuts : functionCuts p = functionCuts q) : SameFunctions p q := by
  have htexts := congrArg String.toList htext
  rw [hashedText_resolved hp, hashedText_resolved hq] at htexts
  exact functionRecords_inj.mp (records_eq hcuts htexts).1

theorem samePlaces_of_cuts {p q : ExceptionPayload} (hp : Unresolved p) (hq : Unresolved q)
    (htext : hashedText p = hashedText q) (hcuts : placeCuts p = placeCuts q) : SamePlaces p q := by
  have htexts := congrArg String.toList htext
  rw [hashedText_unresolved hp, hashedText_unresolved hq, ← List.append_nil (textOf (placeRecords p).flatten),
    ← List.append_nil (textOf (placeRecords q).flatten)] at htexts
  exact placeRecords_inj.mp (records_eq hcuts htexts).1

/-- A fingerprint tells two errors apart unless their texts agree with the fields ending at different places. -/
theorem fingerprints_apart_iff {blake3 : String → String} (hblake3 : blake3.Injective) (p q : ExceptionPayload) :
    (Resolved p → Resolved q →
      ((generateFingerprint blake3 p = generateFingerprint blake3 q → SameFunctions p q) ↔
        (hashedText p = hashedText q → functionCuts p = functionCuts q))) ∧
    (Unresolved p → Unresolved q →
      ((generateFingerprint blake3 p = generateFingerprint blake3 q → SamePlaces p q) ↔
        (hashedText p = hashedText q → placeCuts p = placeCuts q))) := by
  have hsame : generateFingerprint blake3 p = generateFingerprint blake3 q ↔ hashedText p = hashedText q :=
    hblake3.eq_iff
  rw [hsame]
  constructor
  · intro hp hq
    constructor
    · intro hapart htext
      exact congrArg (List.map cutsOf) (functionRecords_inj.mpr (hapart htext))
    · intro hcuts htext
      exact sameFunctions_of_cuts hp hq htext (hcuts htext)
  · intro hp hq
    constructor
    · intro hapart htext
      exact congrArg (List.map cutsOf) (placeRecords_inj.mpr (hapart htext))
    · intro hcuts htext
      exact samePlaces_of_cuts hp hq htext (hcuts htext)

/-- An error in one function of the application. -/
def errorIn (file function : String) : ExceptionPayload where
  message := "x is undefined"
  exception := some ⟨"TypeError", some [⟨some file, some function, some 3, some 7, some true⟩]⟩

def errorAt (line column : Int) : ExceptionPayload where
  message := "x is undefined"
  exception := some ⟨"TypeError", some [⟨some "app.js", none, some line, some column, some true⟩]⟩

theorem fingerprints_apart_errorIn :
    (generateFingerprint id (errorIn "app.js" "load") = generateFingerprint id (errorIn "app.js" "store") →
      SameFunctions (errorIn "app.js" "load") (errorIn "app.js" "store")) ↔
    (hashedText (errorIn "app.js" "load") = hashedText (errorIn "app.js" "store") →
      functionCuts (errorIn "app.js" "load") = functionCuts (errorIn "app.js" "store")) :=
  (fingerprints_apart_iff Function.injective_id _ _).1 (by decide) (by decide)

/-- `draw` of `main.jsx` and `xdraw` of `main.js` are one error, and so are column 12 of line 3 and column 2 of
line 31. -/
theorem fingerprints_not_apart :
    ¬ (∀ blake3 : String → String, blake3.Injective → ∀ p q : ExceptionPayload, Resolved p → Resolved q →
        generateFingerprint blake3 p = generateFingerprint blake3 q → SameFunctions p q) ∧
    ¬ (∀ blake3 : String → String, blake3.Injective → ∀ p q : ExceptionPayload, Unresolved p → Unresolved q →
        generateFingerprint blake3 p = generateFingerprint blake3 q → SamePlaces p q) := by
  constructor
  · intro h
    have hsame := h id Function.injective_id (errorIn "main.jsx" "draw") (errorIn "main.js" "xdraw")
      (by decide) (by decide) (by decide)
    exact absurd hsame.2 (by decide)
  · intro h
    have hsame := h id Function.injective_id (errorAt 3 12) (errorAt 31 2) (by decide) (by decide) (by decide)
    exact absurd hsame.2.2 (by decide)

end Reiver.Watch
