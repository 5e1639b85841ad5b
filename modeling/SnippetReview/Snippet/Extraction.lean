import SnippetReview.Snippet.Block
import SnippetReview.Snippet.Inference
import SnippetReview.Snippet.SettingTable

set_option autoImplicit false

namespace SnippetReview

open Text

structure Limits where
  maxInputBytes : Nat := 1048576
  maxNestingDepth : Nat := 32
deriving DecidableEq, Repr

structure Extraction where
  host : Host
  valid : Bool
  settings : Settings
  source : List Char
  errors : List Notice
  warnings : List Notice

namespace Extraction

def failed (host : Host) (source : List Char) (error : Notice) : Extraction :=
  ⟨host, false, {}, source, [error], []⟩

def statements (g : Grammar) (body : Slice) : List Slice :=
  let items := (split g body.start body.text g.separators).filter fun item => !isSpread g item.text
  if g.mergesContinuations then mergeContinuations g items else items

-- What a first statement binds: without a binding of its own it may be a positional value.
def firstBinding? (g : Grammar) (receiver : List Char) (item : Slice) : Option Binding :=
  (Binding.ofItem? g receiver item).or (g.positionalKey.map fun key => ⟨key, item, false⟩)

def bindings (g : Grammar) (receiver : List Char) : List Slice → List (Slice × Binding)
  | [] => []
  | first :: rest =>
    ((firstBinding? g receiver first).map fun binding => (first, binding)).toList
      ++ rest.filterMap fun item => (Binding.ofItem? g receiver item).map fun binding => (item, binding)

-- Settings and warnings so far, the last warning first, with the lines of the source and a place in it before
-- all values to come.
structure Collection where
  settings : SettingTable
  warnings : List Notice
  lines : LineIndex
  source : Cursor

namespace Collection

def warn (c : Collection) (offset : Nat) (problem : Problem) : Collection :=
  let (position, lines) := c.lines.position offset
  { c with lines, warnings := ⟨problem, some position⟩ :: c.warnings }

def valueOf (g : Grammar) (levels : Nat) (binding : Binding) : Inferred :=
  if binding.isMethod then Inferred.raw binding.value.text .callback
  else Inferred.ofText g levels binding.value.text

def add (g : Grammar) (levels : Nat) (c : Collection) (bound : Slice × Binding) : Collection :=
  let (item, binding) := bound
  let source := c.source.seek binding.value.start
  let raw := trim (source.upTo binding.value.stop)
  let inferred := valueOf g levels binding
  let c := { c with source }
  let c := if inferred.tooDeep then c.warn item.start (.tooDeep binding.key levels) else c
  let c :=
    match c.settings.get? binding.key with
    | some earlier => c.warn item.start (.setAgain binding.key earlier.line)
    | none => c
  let setting : Setting :=
    ⟨binding.key, inferred.value, String.ofList raw, inferred.type, c.lines.line item.start⟩
  { c with settings := c.settings.put setting }

end Collection

def collect (g : Grammar) (levels : Nat) (source : List Char) (block : Block) : Settings × List Notice :=
  let bound := bindings g block.receiver (statements g block.body)
  let start : Collection := ⟨.empty, [], LineIndex.ofText source, Cursor.start source⟩
  let c := bound.foldl (Collection.add g levels) start
  (c.settings.toSettings, c.warnings.reverse)

end Extraction

def extract (registry : Registry) (limits : Limits) (host : Host) (source : List Char) : Extraction :=
  let size := Text.size source
  if limits.maxInputBytes < size then
    Extraction.failed host source ⟨.tooLarge size limits.maxInputBytes, none⟩
  else if !registry.contains host then Extraction.failed host source ⟨.unsupported host, none⟩
  else
    let g := host.grammar
    match Block.locate host (stripComments g source) with
    | .error notice => Extraction.failed host source notice
    | .ok block =>
      let (settings, warnings) := Extraction.collect g limits.maxNestingDepth source block
      ⟨host, true, settings, source, [], warnings⟩

end SnippetReview
