import SnippetReview.Catalog.Entry
import SnippetReview.Report

/- The arguments of a command line. Options may stand before the command, where only the general ones are
   known, or after it. A value follows its option or is attached to it; what follows two hyphens is no option. -/

set_option autoImplicit false

namespace SnippetReview.CommandLine

inductive UsageError where
  | unknownArgument
  | invalidValue
  | valueValidation
  | argumentConflict
  | invalidSubcommand
  | missingSubcommand
  | tooManyValues
  | displayHelp
  | displayVersion
  | helpOnMissing
deriving DecidableEq, Repr

inductive Parameter where
  | logLevel
  | verbose
  | quiet
  | help
  | version
  | file
  | host
  | format
  | failUnder
  | category
  | search
  | required
deriving DecidableEq, Repr

structure OptionSpec where
  parameter : Parameter
  long : String
  short : Option Char := none
  takesValue : Bool := true

inductive CommandName where
  | analyze
  | extract
  | options
  | syntaxes
  | config
deriving DecidableEq, Repr

namespace CommandName

def all : List CommandName := [analyze, extract, options, syntaxes, config]

def name : CommandName → String
  | analyze => "analyze"
  | extract => "extract"
  | options => "options"
  | syntaxes => "syntaxes"
  | config => "config"

def named? (word : String) : Option CommandName := all.find? fun command => command.name == word

def takesFile : CommandName → Bool
  | analyze | extract => true
  | _ => false

end CommandName

def generalOptions : List OptionSpec := [
  { parameter := .logLevel, long := "log-level" },
  { parameter := .verbose, long := "verbose", short := some 'v', takesValue := false },
  { parameter := .quiet, long := "quiet", short := some 'q', takesValue := false },
  { parameter := .help, long := "help", short := some 'h', takesValue := false }]

def hostOption : OptionSpec := { parameter := .host, long := "syntax", short := some 's' }

def formatOption : OptionSpec := { parameter := .format, long := "format", short := some 'f' }

def optionsAt : Option CommandName → List OptionSpec
  | none => { parameter := .version, long := "version", short := some 'V', takesValue := false } :: generalOptions
  | some .analyze => [hostOption, formatOption, { parameter := .failUnder, long := "fail-under" }] ++ generalOptions
  | some .extract => [hostOption, formatOption] ++ generalOptions
  | some .options =>
    [{ parameter := .category, long := "category", short := some 'c' }, { parameter := .search, long := "search" },
      { parameter := .required, long := "required", takesValue := false }, hostOption, formatOption]
      ++ generalOptions
  | some .syntaxes | some .config => formatOption :: generalOptions

def score? (s : String) : Option Nat :=
  let (negative, digits) := Decimal.splitSign s.toList
  if Decimal.isDigitText digits then
    let n := Decimal.digitsValue digits
    if n ≤ 100 && (!negative || n == 0) then some n else none
  else none

def checkValue (parameter : Parameter) (value : String) : Except UsageError Unit :=
  let require (holds : Bool) (error : UsageError) : Except UsageError Unit := if holds then .ok () else .error error
  match parameter with
  | .file => require (value != "") .invalidValue
  | .host => require (Labelled.named? (α := Host) value).isSome .valueValidation
  | .format => require (Format.named? value).isSome .invalidValue
  | .failUnder => require (score? value).isSome .valueValidation
  | .category => require (Labelled.named? (α := Category) value).isSome .valueValidation
  | _ => .ok ()

structure Pending where
  parameter : Parameter
  value : Option String

structure Level where
  given : List (Parameter × String) := []
  pending : Option Pending := none

namespace Level

def take (level : Level) (parameter : Parameter) (value : String) : Except UsageError Level := do
  if level.given.any fun pair => pair.1 == parameter then .error .argumentConflict
  checkValue parameter value
  .ok { level with given := (parameter, value) :: level.given }

def resolve (level : Level) : Except UsageError Level :=
  match level.pending with
  | none => .ok level
  | some ⟨_, none⟩ => .error .invalidValue
  | some ⟨parameter, some value⟩ => ({ level with pending := none }).take parameter value

def awaitsValue (level : Level) : Bool :=
  match level.pending with
  | some ⟨_, none⟩ => true
  | _ => false

def flag (level : Level) (parameter : Parameter) : Except UsageError Level := do
  let level ← level.resolve
  match parameter with
  | .help => .error .displayHelp
  | .version => .error .displayVersion
  | _ => level.take parameter "true"

def option (level : Level) (parameter : Parameter) (attached : Option String) : Except UsageError Level := do
  let level ← level.resolve
  match attached with
  | some value => level.take parameter value
  | none => .ok { level with pending := some ⟨parameter, none⟩ }

def long (specs : List OptionSpec) (level : Level) (text : List Char) : Except UsageError Level :=
  let name := String.ofList (text.takeWhile (· != '='))
  let attached := match text.dropWhile (· != '=') with
    | _ :: value => some (String.ofList value)
    | [] => none
  match specs.find? fun spec => spec.long == name with
  | none => .error .unknownArgument
  | some spec =>
    if spec.takesValue then level.option spec.parameter attached
    else if attached.isSome then .error .tooManyValues
    else level.flag spec.parameter

-- Options in their short form, after the hyphen. A value may be attached to the last one, with or without an
-- equals sign.
def shorts (specs : List OptionSpec) (level : Level) : List Char → Except UsageError Level
  | [] => .ok level
  | c :: rest =>
    match specs.find? fun spec => spec.short == some c with
    | none => .error .unknownArgument
    | some spec =>
      if spec.takesValue then
        let attached := match rest with
          | [] => none
          | '=' :: value => some (String.ofList value)
          | value => some (String.ofList value)
        level.option spec.parameter attached
      else
        match level.flag spec.parameter with
        | .ok level => shorts specs level rest
        | .error error => .error error

def positional (takesFile : Bool) (level : Level) (value : String) : Except UsageError Level :=
  let taken := level.given.any (fun pair => pair.1 == .file)
    || (level.pending.map (·.parameter)) == some .file
  if !takesFile || taken then .error .unknownArgument
  else
    match level.resolve with
    | .ok level => .ok { level with pending := some ⟨.file, some value⟩ }
    | .error error => .error error

-- Closes a level. Options that exclude each other may stand at different levels.
def close (level : Level) : Except UsageError Level := do
  let level ← level.resolve
  let has (parameter : Parameter) := level.given.any fun pair => pair.1 == parameter
  if has .verbose && has .quiet then .error .argumentConflict else .ok level

def value? (level : Level) (parameter : Parameter) : Option String := level.given.lookup parameter

def has (level : Level) (parameter : Parameter) : Bool := (level.value? parameter).isSome

end Level

inductive Written where
  | escape
  | long (text : List Char)
  | short (text : List Char)
  | plain
deriving DecidableEq, Repr

def Written.of (argument : String) : Written :=
  match argument.toList with
  | ['-', '-'] => .escape
  | '-' :: '-' :: text => .long text
  | '-' :: c :: text => .short (c :: text)
  | _ => .plain

def readCommand (command : CommandName) (trailing : Bool) (level : Level) : List String → Except UsageError Level
  | [] => level.close
  | argument :: rest => do
    let specs := optionsAt (some command)
    if trailing then
      let level ← level.positional command.takesFile argument
      readCommand command trailing level rest
    else
      match Written.of argument with
      | .escape => readCommand command true level rest
      | .long text =>
        let level ← level.long specs text
        readCommand command trailing level rest
      | .short text =>
        let level ← level.shorts specs text
        readCommand command trailing level rest
      | .plain =>
        match level.pending with
        | some ⟨parameter, none⟩ =>
          readCommand command trailing { level with pending := some ⟨parameter, some argument⟩ } rest
        | _ =>
          let level ← level.positional command.takesFile argument
          readCommand command trailing level rest

def helpOn : List String → UsageError
  | [] => .displayHelp
  | [word] => if (CommandName.named? word).isSome || word == "help" then .displayHelp else .invalidSubcommand
  | _ => .invalidSubcommand

structure Levels where
  general : Level
  command : CommandName
  own : Level

def withoutCommand (level : Level) : Except UsageError Levels := do
  let level ← level.resolve
  .error (if level.given.isEmpty then .helpOnMissing else .missingSubcommand)

def readGeneral (trailing : Bool) (level : Level) : List String → Except UsageError Levels
  | [] => withoutCommand level
  | argument :: rest => do
    let specs := optionsAt none
    if trailing then
      if (CommandName.named? argument).isSome || argument == "help" then .error .unknownArgument
      else .error .invalidSubcommand
    else
      match CommandName.named? argument, level.awaitsValue with
      | some command, false =>
        let own ← readCommand command false {} rest
        let general ← level.close
        .ok ⟨general, command, own⟩
      | _, awaits =>
        if argument == "help" && !awaits then .error (helpOn rest)
        else
          match Written.of argument with
          | .escape => readGeneral true level rest
          | .long text =>
            let level ← level.long specs text
            readGeneral trailing level rest
          | .short text =>
            let level ← level.shorts specs text
            readGeneral trailing level rest
          | .plain =>
            match level.pending with
            | some ⟨parameter, none⟩ =>
              readGeneral trailing { level with pending := some ⟨parameter, some argument⟩ } rest
            | _ => .error .invalidSubcommand

structure InputArguments where
  file : Option String
  host : Option Host
  format : Format
deriving DecidableEq, Repr

structure ListingArguments where
  category : Option Category
  search : Option String
  required : Bool
  host : Option Host
  format : Format
deriving DecidableEq, Repr

inductive Command where
  | analyze (input : InputArguments) (failUnder : Option Nat)
  | extract (input : InputArguments)
  | options (listing : ListingArguments)
  | syntaxes (format : Format)
  | config (format : Format)
deriving DecidableEq, Repr

structure Arguments where
  command : Command
  logLevel : Option String
  verbose : Bool
  quiet : Bool
deriving DecidableEq, Repr

namespace Levels

def host? (l : Levels) : Option Host := (l.own.value? .host).bind Labelled.named?

def format (l : Levels) : Format := ((l.own.value? .format).bind Format.named?).getD .human

def input (l : Levels) : InputArguments := ⟨l.own.value? .file, l.host?, l.format⟩

def commandOf (l : Levels) : Command :=
  match l.command with
  | .analyze => .analyze l.input ((l.own.value? .failUnder).bind score?)
  | .extract => .extract l.input
  | .options =>
    .options ⟨(l.own.value? .category).bind Labelled.named?, l.own.value? .search, l.own.has .required, l.host?,
      l.format⟩
  | .syntaxes => .syntaxes l.format
  | .config => .config l.format

-- The arguments. A general option after the command goes before one that stands before it.
def arguments (l : Levels) : Arguments :=
  ⟨l.commandOf, (l.own.value? .logLevel).or (l.general.value? .logLevel), l.own.has .verbose || l.general.has .verbose,
    l.own.has .quiet || l.general.has .quiet⟩

end Levels

def parse (arguments : List String) : Except UsageError Arguments :=
  (readGeneral false {} arguments).map Levels.arguments

end SnippetReview.CommandLine
