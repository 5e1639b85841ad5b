import SnippetReview.CommandLine.Run

set_option autoImplicit false

namespace SnippetReview.CommandLine

def readableOfBytes (bytes : ByteArray) : Readable :=
  match String.fromUTF8? bytes with
  | some content => .text content
  | none => .notText

def directoryError : UInt32 := 21

def readPath (path : String) : IO Readable := do
  try
    let bytes ← IO.FS.readBinFile path
    return readableOfBytes bytes
  catch
    | .inappropriateType _ code _ => return if code = directoryError then .directory else .missing
    | _ => return .missing

def seenVariables : List String :=
  [Configuration.logLevelVariable, Configuration.logJsonVariable, Configuration.maxInputSizeVariable,
    Configuration.maxNestingDepthVariable, filterVariable]

def readEnvironment : IO Environment := do
  let pairs ← seenVariables.filterMapM fun name => do
    return (← IO.getEnv name).map fun value => (name, value)
  return fun name => pairs.lookup name

def readWorld (arguments : List String) : IO World := do
  let environment ← readEnvironment
  match parse arguments with
  | .ok ⟨.analyze input _, _, _, _⟩ | .ok ⟨.extract input, _, _, _⟩ =>
    match path? input with
    | some path =>
      let content ← readPath path
      return { file := fun _ => content, stdin := .missing, environment }
    | none =>
      let content ← (← IO.getStdin).readBinToEnd
      return { file := fun _ => .missing, stdin := readableOfBytes content, environment }
  | _ => return { file := fun _ => .missing, stdin := .missing, environment }

def usage : String :=
  let commands := ", ".intercalate (CommandName.all.map (·.name))
  s!"Usage: {programName} [OPTIONS] <COMMAND>\n\nCommands: {commands}\n"

def usageOf (arguments : List String) : IO Unit := do
  match parse arguments with
  | .error .displayHelp => IO.print usage
  | .error .displayVersion | .ok _ => return
  | .error _ => IO.eprint usage

def carryOut (arguments : List String) (library : FilterLibrary := .onOff) : IO UInt32 := do
  let world ← readWorld arguments
  usageOf arguments
  let outcome := run world arguments library
  IO.print outcome.stdout
  for message in outcome.errors do
    IO.eprintln s!"ERROR {programName}: {message}"
  return outcome.exit.toUInt32

end SnippetReview.CommandLine

def main (arguments : List String) : IO UInt32 := SnippetReview.CommandLine.carryOut arguments
