import SnippetReview.Configuration

set_option autoImplicit false

namespace SnippetReview

inductive LogLevel where
  | trace
  | debug
  | info
  | warn
  | error
deriving DecidableEq, Repr

namespace LogLevel

def name : LogLevel → String
  | trace => "TRACE"
  | debug => "DEBUG"
  | info => "INFO"
  | warn => "WARN"
  | error => "ERROR"

-- The level of a name in any letter case. Any other name stands for the level of information.
def ofName (name : String) : LogLevel :=
  match Text.lower name with
  | "trace" => trace
  | "debug" => debug
  | "warn" => warn
  | "error" => error
  | _ => info

-- The level of a run: a given one goes before more output, more before less, and that before the configured
-- one.
def choose (explicit : Option String) (verbose quiet : Bool) (configured : LogLevel) : LogLevel :=
  match explicit with
  | some name => ofName name
  | none => if verbose then debug else if quiet then error else configured

end LogLevel

structure LogSettings where
  level : LogLevel := .info
  json : Bool := false
  showTarget : Bool := true
  showLocation : Bool := false
deriving DecidableEq, Repr

namespace LogSettings

def ofConfiguration (c : Configuration) : LogSettings :=
  { level := .ofName c.logLevel, json := c.logJson }

def hexDigits (n : Nat) : List Char :=
  let digits := Nat.toDigits 16 n
  List.replicate (2 - digits.length) '0' ++ digits

-- A character of a line of the log. Those that a terminal could obey are spelled out: bell, backspace, form
-- feed, escape, delete and the controls beyond the first 128 characters.
def visible (c : Char) : List Char :=
  if c == '\x07' || c == '\x08' || c == '\x0C' || c == '\x1B' || c == '\x7F' then '\\' :: 'x' :: hexDigits c.toNat
  else if 0x80 ≤ c.toNat && c.toNat ≤ 0x9F then '\\' :: 'u' :: '\x7b' :: (hexDigits c.toNat ++ ['\x7d'])
  else [c]

def shown (s : LogSettings) (message : String) : String :=
  if s.json then message else String.ofList (message.toList.flatMap visible)

end LogSettings

-- What a run uses of the library that filters its log. How directives are read and which events a filter lets
-- through is up to that library. Reading the value of a variable may end the run, with an exit code of its own.
structure FilterLibrary where
  Filter : Type
  ofVariable : String → Except Nat Filter
  ofText : String → Filter
  add? : Filter → String → Option Filter
  shows : Filter → LogLevel → String → List String → Bool

namespace FilterLibrary

-- The library documents that it ignores invalid directives, so that any value gives a filter.
def ReadsEverything (library : FilterLibrary) : Prop := ∀ text, ∃ filter, library.ofVariable text = .ok filter

-- The filter of a variable, where it is set. Else events of the target are filtered by the level, and all
-- others down to warnings.
def choose (library : FilterLibrary) (value : Option String) (target : String) (level : LogLevel) :
    Except Nat library.Filter :=
  match value with
  | some text => library.ofVariable text
  | none =>
    let warnings := library.ofText "warn"
    .ok ((library.add? warnings (target ++ "=" ++ level.name)).getD warnings)

-- The least of such libraries: a log is off or on.
def onOff : FilterLibrary where
  Filter := Bool
  ofVariable text := .ok (Text.lower text != "off")
  ofText text := Text.lower text != "off"
  add? filter _ := some filter
  shows filter _ _ _ := filter

end FilterLibrary

end SnippetReview
