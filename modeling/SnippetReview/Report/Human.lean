import SnippetReview.Report.Data

set_option autoImplicit false

namespace SnippetReview

def linesOf (s : String) : List String :=
  let lines := s.toList.splitOn '\n'
  let lines := if lines.getLast? == some [] then lines.dropLast else lines
  let feeds := s.toList.count '\n'
  lines.zipIdx.map fun (line, index) =>
    String.ofList (if index < feeds && line.getLast? == some '\r' then line.dropLast else line)

def padded (width : Nat) (s : String) : String :=
  s ++ String.ofList (List.replicate (width - s.length) ' ')

def ruleLine : String := String.ofList (List.replicate 40 '━')

def heading (title : String) : List String := [title, ruleLine, ""]

-- A value in one line: its first line, cut after sixty characters, with a mark if that is not all.
def preview (raw : String) : String :=
  match linesOf raw with
  | [] => ""
  | first :: more =>
    let shortened := first.toList.take 60
    if !more.isEmpty || shortened.length < first.length then String.ofList shortened ++ " …"
    else String.ofList shortened

def Severity.symbol : Severity → String
  | error => "✗"
  | warning => "⚠"
  | info => "ℹ"

def Finding.toLine (f : Finding) : String :=
  f.severity.symbol ++ " " ++ f.severity.name ++ " [" ++ f.code ++ "] " ++ f.message

def scoreBar (score : Nat) : String :=
  let filled := (score + 5) / 10
  String.ofList (List.replicate filled '█' ++ List.replicate (10 - filled) '░')

def OptionReview.toLines (isLast : Bool) (r : OptionReview) : List String :=
  let connector := if isLast then "└" else "├"
  let indent := if isLast then " " else "│"
  s!"{connector}─ {r.setting.key} = {preview r.setting.raw}  (line {r.setting.line})"
    :: r.findings.map fun f => indent ++ "    " ++ f.toLine

def optionLines : List OptionReview → List String
  | [] => []
  | [only] => only.toLines true
  | r :: rest => r.toLines false ++ optionLines rest

def findingSection (title : String) (findings : List Finding) : List String :=
  if findings.isEmpty then [] else title :: (findings.map fun f => "  " ++ f.toLine) ++ [""]

def Recommendation.toLines (r : Recommendation) : List String :=
  s!"  [{r.priority.name}] {r.title}: {r.message}"
    :: ((r.sample.map linesOf).getD []).map fun line => "        " ++ line

def unlines (lines : List String) : String := String.join (lines.map (· ++ "\n"))

def errorLines (errors : List Notice) : List String := errors.map fun n => "  - " ++ n.toText

def Review.toLines (r : Review) : List String :=
  if !r.valid then
    heading s!"✗ Sentry Configuration ({r.host.name})" ++ [r.summary] ++ errorLines r.errors
  else
    let score := r.score.getD 0
    let symbol := if r.count .error = 0 then "✓" else "⚠"
    heading s!"{symbol} Sentry Configuration ({r.host.name})"
      ++ [s!"Score: {scoreBar score} {score}/100", r.summary, ""]
      ++ (if r.options.isEmpty then ["Options: (none)"] else "Options:" :: optionLines r.options)
      ++ [""]
      ++ findingSection "Missing Required Options:" r.missingRequired
      ++ findingSection "Notes:" r.notes
      ++ (if r.recommendations.isEmpty then [] else "Recommendations:" :: r.recommendations.flatMap (·.toLines))

def Review.toHuman (r : Review) : String := unlines r.toLines

def Extraction.toLines (e : Extraction) : List String :=
  let symbol := if e.valid then "✓" else "✗"
  let title := heading s!"{symbol} Extracted Options ({e.host.name})"
  if !e.valid then title ++ errorLines e.errors
  else
    let width := (e.settings.keys.map String.length).foldl max 0
    title ++ (if e.settings.list.isEmpty then ["(no options)"] else [])
      ++ e.settings.list.map (fun s =>
        padded width s.key ++ "  " ++ padded 10 s.type.name ++ " " ++ preview s.raw)
      ++ (if e.warnings.isEmpty then [] else "" :: "⚠ Warnings:" :: errorLines e.warnings)

def Extraction.toHuman (e : Extraction) : String := unlines e.toLines

def ListedEntry.toLines (e : ListedEntry) : List String :=
  let entry := e.entry
  let required := if entry.required then ", required" else ""
  [s!"{e.nativeKey.getD entry.key} ({entry.type.label.name}, {entry.category.label.name}{required})",
    "  " ++ entry.description]
    ++ (entry.defaultValue.map fun text => "  Default: " ++ text).toList
    ++ (entry.guidance.map fun text => "  Guidance: " ++ text).toList
    ++ entry.warnings.map (fun text => "  ⚠ " ++ text)
    ++ (if entry.related.isEmpty then [] else ["  Related: " ++ ", ".intercalate entry.related])
    ++ [""]

def listingToHuman (entries : List ListedEntry) : String :=
  unlines (heading s!"Sentry Options ({entries.length})" ++ entries.flatMap (·.toLines))

def Host.toLines (h : Host) : List String :=
  [padded 11 h.id ++ " " ++ h.name, "  Extensions: " ++ ", ".intercalate h.extensions,
    "  Example:    " ++ h.sample, ""]

def hostsToHuman (hosts : List Host) : String :=
  unlines (heading "Supported Syntaxes" ++ hosts.flatMap (·.toLines))

end SnippetReview
