import SnippetReview.Document
import SnippetReview.Snippet.Extraction
import SnippetReview.Text.Case

/- The configuration of a run, from environment variables. The lenient reader passes over what it cannot read;
   the strict one reports it, and checks the range of every setting. -/

set_option autoImplicit false

namespace SnippetReview

structure Configuration where
  logLevel : String := "info"
  logJson : Bool := false
  maxInputSize : Nat := ({} : Limits).maxInputBytes
  maxNestingDepth : Nat := ({} : Limits).maxNestingDepth
deriving DecidableEq, Repr

abbrev Environment := String → Option String

inductive ReadError where
  | emptyNumber
  | invalidDigit
  | tooLarge
  | notBoolean
deriving DecidableEq, Repr

def ReadError.message : ReadError → String
  | emptyNumber => "cannot parse integer from empty string"
  | invalidDigit => "invalid digit found in string"
  | tooLarge => "number too large to fit in target type"
  | notBoolean => "provided string was not `true` or `false`"

inductive ConfigurationError where
  | validation (reason : String)
  | unreadable (field value : String) (error : ReadError)
deriving DecidableEq, Repr

def ConfigurationError.message : ConfigurationError → String
  | validation reason => "Configuration validation failed: " ++ reason
  | unreadable field value error => s!"Failed to parse {field}: '{value}': {error.message}"

namespace Configuration

def minInputSize : Nat := 64

def largestInputSize : Nat := 16777216

def largestNestingDepth : Nat := 256

def logLevels : List String := ["trace", "debug", "info", "warn", "error"]

def wordLimit : Nat := 18446744073709551616

-- Reads digits after `n`. The first digit that is none or makes the number too large decides.
def readDigits (n : Nat) : List Char → Except ReadError Nat
  | [] => .ok n
  | c :: rest =>
    if !c.isDigit then .error .invalidDigit
    else
      let next := 10 * n + (c.toNat - 48)
      if wordLimit ≤ next then .error .tooLarge else readDigits next rest

def readNumber (s : String) : Except ReadError Nat :=
  match s.toList with
  | [] => .error .emptyNumber
  | ['+'] => .error .invalidDigit
  | '+' :: digits => readDigits 0 digits
  | digits => readDigits 0 digits

def readBoolean (s : String) : Except ReadError Bool :=
  if s == "true" then .ok true else if s == "false" then .ok false else .error .notBoolean

def logLevelVariable : String := "INITSCOPE_LOG_LEVEL"

def logJsonVariable : String := "INITSCOPE_LOG_JSON"

def maxInputSizeVariable : String := "INITSCOPE_MAX_INPUT_SIZE"

def maxNestingDepthVariable : String := "INITSCOPE_MAX_NESTING_DEPTH"

-- The value of a variable, or a default where it is not set or cannot be read.
def lenient {α : Type} (env : Environment) (read : String → Except ReadError α) (field : String) (default : α) : α :=
  match (env field).map read with
  | some (.ok value) => value
  | _ => default

def ofEnvironment (env : Environment) : Configuration :=
  { logLevel := Text.lower ((env logLevelVariable).getD ({} : Configuration).logLevel)
    logJson := lenient env readBoolean logJsonVariable ({} : Configuration).logJson
    maxInputSize := lenient env readNumber maxInputSizeVariable ({} : Configuration).maxInputSize
    maxNestingDepth := lenient env readNumber maxNestingDepthVariable ({} : Configuration).maxNestingDepth }

-- The value of a variable without outer blanks, or a default where it is not set.
def strict {α : Type} (env : Environment) (read : String → Except ReadError α) (field : String) (default : α) :
    Except ConfigurationError α :=
  match env field with
  | none => .ok default
  | some value =>
    match read (Text.trimString value) with
    | .ok result => .ok result
    | .error error => .error (.unreadable field value error)

def validate (c : Configuration) : Except ConfigurationError Unit :=
  if c.maxInputSize < minInputSize then
    .error (.validation s!"Max input size must be at least {minInputSize} bytes")
  else if largestInputSize < c.maxInputSize then .error (.validation "Max input size cannot exceed 16MB")
  else if c.maxNestingDepth = 0 then .error (.validation "Max nesting depth must be at least 1")
  else if largestNestingDepth < c.maxNestingDepth then
    .error (.validation s!"Max nesting depth cannot exceed {largestNestingDepth}")
  else if !logLevels.contains c.logLevel then
    let valid := ", ".intercalate logLevels
    .error (.validation s!"Invalid log level: {c.logLevel}. Valid options: {valid}")
  else .ok ()

def ofEnvironmentStrict (env : Environment) : Except ConfigurationError Configuration := do
  let c := ofEnvironment env
  let logJson ← strict env readBoolean logJsonVariable c.logJson
  let maxInputSize ← strict env readNumber maxInputSizeVariable c.maxInputSize
  let maxNestingDepth ← strict env readNumber maxNestingDepthVariable c.maxNestingDepth
  let c := { c with logJson, maxInputSize, maxNestingDepth }
  c.validate
  .ok c

def limits (c : Configuration) : Limits := ⟨c.maxInputSize, c.maxNestingDepth⟩

def fields (c : Configuration) : List (String × String) :=
  [("log_level", c.logLevel), ("log_json", if c.logJson then "true" else "false"),
    ("max_input_size", toString c.maxInputSize), ("max_nesting_depth", toString c.maxNestingDepth)]

def toDocument (c : Configuration) : Document :=
  .record (c.fields.map fun (name, value) => (name, .text value))

def toHuman (c : Configuration) : String :=
  let logJson := if c.logJson then "true" else "false"
  s!"Initscope Configuration:\n  Log Level: {c.logLevel}\n  Log JSON: {logJson}\n"
    ++ s!"  Max Input Size: {c.maxInputSize} bytes\n  Max Nesting Depth: {c.maxNestingDepth}\n"

end Configuration

end SnippetReview
