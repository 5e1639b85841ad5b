import SnippetReview.CommandLine.Arguments
import SnippetReview.Logging
import SnippetReview.Review.Analysis

set_option autoImplicit false

namespace SnippetReview.CommandLine

def programName : String := "initscope"

def programVersion : String := "0.3.0"

inductive Readable where
  | missing
  | directory
  | notText
  | text (content : String)
deriving DecidableEq, Repr

structure World where
  file : String → Readable
  stdin : Readable
  environment : Environment

inductive RunError where
  | invalidConfiguration (error : ConfigurationError)
  | catalog (error : CatalogError)
  | unknownHost
  | unknownExtension (extension : String)
  | missingPath (path : String)
  | isDirectory (path : String)
  | fileNotText (path : String)
  | stdinNotText
deriving DecidableEq, Repr

def RunError.message : RunError → String
  | invalidConfiguration error => "Invalid configuration: " ++ error.message
  | catalog error => "Failed to build option dictionary: " ++ error.message
  | unknownHost => "Cannot guess the syntax of stdin input; pass --syntax"
  | unknownExtension extension => s!"Unrecognized file extension '.{extension}'; pass --syntax"
  | missingPath path => s!"Path does not exist: {path}"
  | isDirectory path => s!"Failed to read {path}: Is a directory (os error 21)"
  | fileNotText path => s!"Failed to read {path}: stream did not contain valid UTF-8"
  | stdinNotText => "Failed to read snippet from stdin: stream did not contain valid UTF-8"

structure Outcome where
  exit : Nat
  stdout : String := ""
  errors : List String := []
deriving DecidableEq, Repr

def extension? (path : String) : Option String :=
  let parts := (path.splitOn "/").filter fun part => part != "" && part != "."
  match parts.getLast? with
  | none => none
  | some name =>
    let reversed := name.toList.reverse
    let extension := reversed.takeWhile (· != '.')
    match reversed.dropWhile (· != '.') with
    | _ :: _ :: _ => if name == ".." then none else some (String.ofList extension.reverse)
    | _ => none

def path? (input : InputArguments) : Option String := input.file.filter (· != "-")

def resolveHost (input : InputArguments) (registry : Registry) : Except RunError Host :=
  match input.host with
  | some host => .ok host
  | none =>
    match (path? input).bind extension? with
    | none => .error .unknownHost
    | some extension =>
      match registry.ofExtension? extension with
      | some host => .ok host
      | none => .error (.unknownExtension extension)

def readSnippet (world : World) (input : InputArguments) : Except RunError String :=
  match path? input with
  | some path =>
    match world.file path with
    | .missing => .error (.missingPath path)
    | .directory => .error (.isDirectory path)
    | .notText => .error (.fileNotText path)
    | .text content => .ok content
  | none =>
    match world.stdin with
    | .text content => .ok content
    | _ => .error .stdinNotText

def extractInput (world : World) (c : Configuration) (input : InputArguments) : Except RunError (Host × Extraction) := do
  let host ← resolveHost input .full
  let content ← readSnippet world input
  .ok (host, extract .full c.limits host content.toList)

def printed (report : String) : String := String.ofList (Text.trimEnd report.toList) ++ "\n"

def exitCode (r : Review) (failUnder : Option Nat) : Nat :=
  if !r.valid then 1
  else
    match failUnder, r.score with
    | some threshold, some score => if score < threshold then 2 else 0
    | _, _ => 0

def listed (catalog : Catalog) (listing : ListingArguments) : List ListedEntry :=
  let found := match listing.search with
    | some term => catalog.search term
    | none => catalog.entries
  let kept := found.filter fun entry =>
    listing.category.all (· == entry.category) && (!listing.required || entry.required)
      && listing.host.all entry.appliesTo
  kept.map fun entry => ⟨entry, listing.host.map fun host => host.grammar.nativeKey entry.key⟩

def execute (world : World) (c : Configuration) : Command → Except RunError Outcome
  | .analyze input failUnder => do
    let (host, extraction) ← extractInput world c input
    match Catalog.standard with
    | .error error => .error (.catalog error)
    | .ok catalog =>
      let review := ReviewPolicy.review { catalog } extraction host
      .ok ⟨exitCode review failUnder, printed (review.report input.format), []⟩
  | .extract input => do
    let (_, extraction) ← extractInput world c input
    .ok ⟨if extraction.valid then 0 else 1, printed (extraction.report input.format), []⟩
  | .options listing =>
    match Catalog.standard with
    | .error error => .error (.catalog error)
    | .ok catalog => .ok ⟨0, printed (listingReport listing.format (listed catalog listing)), []⟩
  | .syntaxes format => .ok ⟨0, printed (hostsReport format .full), []⟩
  | .config format => .ok ⟨0, printed (format.write c.toDocument c.toHuman), []⟩

def filterVariable : String := "RUST_LOG"

def errorFields : List String := ["message"]

def logged (library : FilterLibrary) (filter : library.Filter) (settings : LogSettings) (error : RunError) : List String :=
  if library.shows filter .error programName errorFields then [settings.shown error.message] else []

def logSettings (c : Configuration) (arguments : Arguments) : LogSettings :=
  { LogSettings.ofConfiguration c with
    level := .choose arguments.logLevel arguments.verbose arguments.quiet (.ofName c.logLevel) }

-- The log is opened before anything is done. What was done is only looked at once there is a filter.
def withLog (library : FilterLibrary) (world : World) (settings : LogSettings) (done : Except RunError Outcome) : Outcome :=
  match library.choose (world.environment filterVariable) programName settings.level with
  | .error exit => ⟨exit, "", []⟩
  | .ok filter =>
    match done with
    | .ok outcome => outcome
    | .error error => ⟨1, "", logged library filter settings error⟩

def usageExit : UsageError → Nat
  | .displayHelp | .displayVersion => 0
  | _ => 2

def usageOutput : UsageError → String
  | .displayVersion => programName ++ " " ++ programVersion ++ "\n"
  | _ => ""

def runUnderstood (library : FilterLibrary) (world : World) (arguments : Arguments) : Outcome :=
  match Configuration.ofEnvironmentStrict world.environment with
  | .error error =>
    withLog library world (logSettings (.ofEnvironment world.environment) arguments) (.error (.invalidConfiguration error))
  | .ok c => withLog library world (logSettings c arguments) (execute world c arguments.command)

def run (world : World) (arguments : List String) (library : FilterLibrary := .onOff) : Outcome :=
  match parse arguments with
  | .error error => ⟨usageExit error, usageOutput error, []⟩
  | .ok arguments => runUnderstood library world arguments

end SnippetReview.CommandLine
