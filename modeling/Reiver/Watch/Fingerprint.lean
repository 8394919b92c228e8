import Mathlib.Data.List.Infix

/-! # Fingerprints of errors

The model of `fingerprint.rs`: what is hashed of an error, and how its message is normalized first. The hash is a
parameter; what it is fed with comes to one text. -/

namespace Reiver.Watch

/-- `char::is_whitespace`. -/
def isWhitespace (c : Char) : Bool :=
  (9 ≤ c.toNat && c.toNat ≤ 13) || c.toNat ∈ [32, 133, 160, 5760] || (8192 ≤ c.toNat && c.toNat ≤ 8202) ||
    c.toNat ∈ [8232, 8233, 8239, 8287, 12288]

/-- `str::contains`. -/
def containsText (l : List Char) (text : String) : Bool := text.toList <:+: l

def startsText (l : List Char) (text : String) : Bool := text.toList <+: l

def endsText (l : List Char) (text : String) : Bool := text.toList <:+ l

/-! ### Messages -/

/-- `MESSAGE_REPLACER`. -/
def messageReplacer : List (List Char × List Char) :=
  [(" message ".toList, " error ".toList), ("message #".toList, "error #".toList),
    (" message#".toList, " error#".toList)]

/-- A single pass; the first argument counts the characters of the last match that are still to come. -/
def replaceFrom : Nat → List Char → List Char
  | _, [] => []
  | skip + 1, _ :: cs => replaceFrom skip cs
  | 0, c :: cs =>
    match messageReplacer.find? (·.1 <+: c :: cs) with
    | some replacement => replacement.2 ++ replaceFrom (replacement.1.length - 1) cs
    | none => c :: replaceFrom 0 cs

def replaceAll (l : List Char) : List Char := replaceFrom 0 l

def needsDigitReplacement (message : List Char) : Bool := message.any (·.isDigit)

def needsWhitespaceNormalization (message : List Char) : Bool :=
  message.any (fun b => b = '\t' || b = '\n' || b = '\r') || containsText message "  " || startsText message " " ||
    endsText message " "

def needsMessageReplacement (message : List Char) : Bool :=
  containsText message " message " || containsText message "message #" || containsText message " message#"

/-- Digits and whitespace in one pass. A digit after a digit is skipped. -/
def normalizeLoop : (lastWasDigit lastWasWhitespace : Bool) → List Char → List Char
  | _, _, [] => []
  | lastWasDigit, lastWasWhitespace, ch :: chars =>
    if ch.isDigit then
      if lastWasDigit then normalizeLoop true false chars else 'N' :: normalizeLoop true false chars
    else if isWhitespace ch then
      if lastWasWhitespace then normalizeLoop false true chars else ' ' :: normalizeLoop false true chars
    else ch :: normalizeLoop false false chars

def popSpace (l : List Char) : List Char := if endsText l " " then l.dropLast else l

/-- The message before its words are replaced. -/
def collapse (message : List Char) : List Char := popSpace (normalizeLoop false true message)

def isFast (message : List Char) : Bool :=
  !needsDigitReplacement message && !needsWhitespaceNormalization message && !needsMessageReplacement message

def normalizeChars (message : List Char) : List Char :=
  if isFast message then message
  else if needsMessageReplacement message then replaceAll (collapse message)
  else collapse message

def normalizeMessage (message : String) : String := String.ofList (normalizeChars message.toList)

/-! ### Stack frames -/

structure StackFrame where
  filename : Option String
  function : Option String
  lineno : Option Int
  colno : Option Int
  inApp : Option Bool

structure ExceptionInfo where
  exceptionType : String
  stacktrace : Option (List StackFrame)

structure ExceptionPayload where
  message : String
  exception : Option ExceptionInfo

/-- `replace('\\', "/")`. -/
def slashed (path : List Char) : List Char := path.map fun c => if c = '\\' then '/' else c

def afterLast (sep : Char) (l : List Char) : List Char := (l.reverse.takeWhile (· ≠ sep)).reverse

def normalizeFilePath (path : String) : String := String.ofList (afterLast '/' (slashed path.toList))

def normalizeFunctionName (function : String) : String :=
  let cs := function.toList
  if '(' ∈ cs then String.ofList ((cs.takeWhile (· ≠ '(')).reverse.dropWhile isWhitespace).reverse else function

def isLibraryPath (path : List Char) : Bool :=
  let contains := containsText path
  let starts := startsText path
  let ends := endsText path
  contains "node_modules/" || contains "bower_components/" || ends ".min.js" ||
  contains "site-packages/" || contains "dist-packages/" || contains "/lib/python" || contains ".pyc" ||
  contains "__pycache__" ||
  ((contains "/target/" || contains "/.cargo/registry/" || contains "/.cargo/git/" || contains "CARGO_HOME" ||
      (contains ".cargo" && !contains "src/")) &&
    !contains "/target/debug/deps/" && !contains "/target/release/deps/") ||
  ((contains "GOROOT" || contains "/go/src/" || contains "/go/pkg/mod/" ||
      (contains "/vendor/" && contains ".go") || starts "/usr/local/go/" || starts "C:/go/") &&
    (contains "/vendor/" || contains "/pkg/mod/" || contains "GOROOT" || contains "/go/src/")) ||
  contains "/vendor/" || contains "/gems/" || contains "/.gem/" || contains "/.bundle/" ||
  ends ".jar" ||
  (contains ".class" && (contains "/.m2/repository/" || contains "/.gradle/" || contains "/.ivy2/")) ||
  starts "/usr/lib/" || starts "/usr/local/lib/" || starts "/Library/" || starts "/System/" || starts "C:/Windows/" ||
  starts "C:/Program Files/" ||
  ((contains "/std/" || contains "runtime/" || contains "internal/") &&
    (starts "/usr/" || starts "/usr/local/" || contains "GOROOT" || contains "/go/src/"))

/-- What the client says of a frame goes before its path. -/
def isLibraryFrame (frame : StackFrame) : Bool :=
  match frame.inApp, frame.filename with
  | some inApp, _ => !inApp
  | none, none => false
  | none, some filename => isLibraryPath (slashed filename.toList)

/-! ### Fingerprints -/

def standardTypes : List String :=
  ["TypeError", "ReferenceError", "ValueError", "KeyError", "IndexError", "AttributeError", "ImportError",
    "RuntimeError", "IOError", "OSError", "SyntaxError", "NameError", "AssertionError"]

def isGenericType (exceptionType : String) : Bool :=
  exceptionType = "Error" || exceptionType = "Unknown" ||
    (exceptionType ∉ standardTypes && endsText exceptionType.toList "Error" && exceptionType.utf8ByteSize < 12)

def resolvedParts (frame : StackFrame) : List String :=
  match frame.function with
  | some function => (frame.filename.map normalizeFilePath).toList ++ [normalizeFunctionName function]
  | none => []

def unresolvedParts (frame : StackFrame) : List String :=
  (frame.filename.map normalizeFilePath).toList ++ (frame.function.map normalizeFunctionName).toList ++
    (frame.lineno.map toString).toList ++ (frame.colno.map toString).toList

def fingerprintParts (payload : ExceptionPayload) : List String :=
  let exceptionType := payload.exception.toList.map (·.exceptionType)
  let stackFrames := (payload.exception.bind (·.stacktrace)).getD []
  let inAppFrames := stackFrames.filter (!isLibraryFrame ·)
  let hasResolvedFrames := inAppFrames.any (·.function.isSome)
  exceptionType.filter (!isGenericType ·) ++
    if inAppFrames.isEmpty then [normalizeMessage payload.message]
    else if hasResolvedFrames then inAppFrames.flatMap resolvedParts
    else normalizeMessage payload.message :: inAppFrames.flatMap unresolvedParts

def generateFingerprint (blake3 : String → String) (payload : ExceptionPayload) : String :=
  blake3 (String.join (fingerprintParts payload))

end Reiver.Watch
