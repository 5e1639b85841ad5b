import SnippetReview.Host.LiteralGrammars

set_option autoImplicit false

namespace SnippetReview

open Text

open Pattern

namespace Grammar

def parameters : Pattern :=
  textStart ++ optional (lit "(") ++ many (fun c => isWordChar c || isBlank c || c == ',')
    ++ optional (lit ")" ++ gap)

def receiver : Pattern := group word

def java : Grammar := {
  quotes := [.escaped "\"\"\"" "\"\"\"" true, .escaped "\"" "\"" false, .escaped "'" "'" false]
  generics := true
  separators := [';']
  bindings := [.setter, .receiver]
  anchorWords := ["Sentry.init".toList, "SentryAndroid.init".toList]
  anchors := [
    ⟨wordEdge ++ lit "Sentry" ++ optional (lit "Android") ++ lit ".init" ++ gap ++ lit "("
      ++ optional (noneOf ",()\x7b\x7d;" ++ lit ",") ++ gap ++ optional (lit "(" ++ gap)
      ++ optional (many1 isDotted ++ space) ++ receiver ++ gap ++ optional (lit ")" ++ gap) ++ lit "->" ++ gap
      ++ lit "\x7b", .delimiter '\x7d'⟩]
  bareForm := some .receiverStatements
  number := .number (suffixes ["f", "F", "d", "D", "L", "l"])
  callables := [
    parameters ++ lit "->",
    textStart ++ many1 isDotted ++ lit "::" ++ word ++ textEnd,
    textStart ++ lit "new" ++ space ++ many1 isDotted ++ optional (lit "<" ++ noneOf ">" ++ lit ">") ++ gap ++ lit "("
      ++ noneOf ")" ++ lit ")" ++ gap ++ lit "\x7b"]
  lists := [
    ⟨textStart ++ oneOf ["Arrays.asList", "List.of", "Set.of"] ++ gap ++ lit "(", ')'⟩,
    ⟨textStart ++ lit "new" ++ space ++ many1 isDotted ++ gap ++ lit "[" ++ gap ++ lit "]" ++ gap ++ lit "\x7b", '\x7d'⟩]
  keyOverrides := [("ignoreErrors", "ignoredErrors")] }

def kotlin : Grammar := {
  nestedComments := true
  quotes := [.raw "\"\"\"" "\"\"\"", .escaped "\"" "\"" false, .escaped "'" "'" false]
  generics := true
  separators := ['\n', ';']
  bindings := [.receiver, .setter]
  defaultReceiver := "it".toList
  anchorWords := ["Sentry.init".toList, "SentryAndroid.init".toList]
  anchors := [
    ⟨wordEdge ++ lit "Sentry" ++ optional (lit "Android") ++ lit ".init" ++ gap
      ++ optional (lit "(" ++ noneOf "()\x7b\x7d" ++ lit ")" ++ gap) ++ lit "\x7b" ++ gap
      ++ optional (receiver ++ gap ++ lit "->"), .delimiter '\x7d'⟩]
  bareForm := some .receiverStatements
  number := .number (suffixes ["f", "F", "L"])
  callables := [
    textStart ++ lit "\x7b",
    textStart ++ lit "fun" ++ wordEdge,
    textStart ++ optional (many1 isDotted) ++ lit "::" ++ word ++ textEnd,
    textStart ++ optional (lit "SentryOptions.") ++ word ++ lit "Callback" ++ gap ++ lit "\x7b"]
  lists := [
    ⟨textStart ++ oneOf ["listOf", "arrayOf", "setOf", "mutableListOf", "mutableSetOf"]
      ++ optional (lit "<" ++ noneOf ">" ++ lit ">") ++ gap ++ lit "(", ')'⟩] }

def dotnet : Grammar := {
  quotes := [.raw "\"\"\"" "\"\"\"", .verbatim "$@\"" "\"", .verbatim "@$\"" "\"", .verbatim "@\"" "\"",
    .escaped "$\"" "\"" false, .escaped "\"" "\"" false, .escaped "'" "'" false]
  generics := true
  separators := [';', ',']
  bindings := [.receiver, .setter, .token ['=']]
  anchorWords := ["SentrySdk.Init".toList, "UseSentry".toList]
  anchors := [
    ⟨wordEdge ++ lit "SentrySdk.Init" ++ gap ++ lit "(" ++ gap ++ optional (lit "(" ++ gap) ++ receiver ++ gap
      ++ optional (lit ")" ++ gap) ++ lit "=>" ++ gap ++ lit "\x7b", .delimiter '\x7d'⟩,
    ⟨lit ".UseSentry" ++ gap ++ lit "(" ++ gap ++ optional (lit "(" ++ gap) ++ receiver ++ gap
      ++ optional (lit ")" ++ gap) ++ lit "=>" ++ gap ++ lit "\x7b", .delimiter '\x7d'⟩,
    ⟨wordEdge ++ lit "new" ++ space ++ lit "SentryOptions" ++ gap
      ++ optional (lit "(" ++ gap ++ lit ")" ++ gap) ++ lit "\x7b", .delimiter '\x7d'⟩]
  bareForm := some .receiverStatements
  number := .number (suffixes ["f", "F", "d", "D", "m", "M"])
  callables := [parameters ++ lit "=>", textStart ++ lit "delegate" ++ wordEdge]
  lists := [
    ⟨textStart ++ lit "new" ++ gap ++ optional (many1 isDotted ++ gap) ++ lit "[" ++ gap ++ lit "]" ++ gap
      ++ lit "\x7b", '\x7d'⟩,
    ⟨textStart ++ lit "new" ++ space ++ oneOf ["List", "HashSet"] ++ lit "<" ++ noneOf ">" ++ lit ">" ++ gap
      ++ optional (lit "(" ++ gap ++ lit ")" ++ gap) ++ lit "\x7b", '\x7d'⟩]
  naming := .pascal }

def cocoaBlock : Pattern :=
  wordEdge ++ lit "SentrySDK.start" ++ gap ++ optional (lit "(" ++ gap ++ lit "configureOptions" ++ gap ++ lit ":" ++ gap)
    ++ lit "\x7b"

def cocoa : Grammar := {
  nestedComments := true
  quotes := [.escaped "\"\"\"" "\"\"\"" true, .raw "#\"" "\"#", .escaped "@\"" "\"" false, .escaped "\"" "\"" false]
  generics := true
  separators := ['\n', ';']
  bindings := [.receiver]
  defaultReceiver := "$0".toList
  anchorWords := ["SentrySDK.start".toList, "SentrySDK startWithConfigureOptions".toList]
  anchors := [
    ⟨cocoaBlock ++ gap ++ receiver ++ space ++ lit "in" ++ wordEdge, .delimiter '\x7d'⟩,
    ⟨lit "startWithConfigureOptions" ++ gap ++ lit ":" ++ gap ++ lit "^" ++ gap ++ lit "(" ++ gap
      ++ lit "SentryOptions" ++ gap ++ lit "*" ++ gap ++ receiver ++ gap ++ lit ")" ++ gap ++ lit "\x7b",
      .delimiter '\x7d'⟩,
    ⟨cocoaBlock, .delimiter '\x7d'⟩]
  bareForm := some .receiverStatements
  trueWords := ["true".toList, "YES".toList]
  falseWords := ["false".toList, "NO".toList]
  nullWords := ["nil".toList]
  callables := [textStart ++ lit "\x7b", textStart ++ lit "^"] }

def dart : Grammar := {
  nestedComments := true
  quotes := [.raw "r'''" "'''", .raw "r\"\"\"" "\"\"\"", .escaped "'''" "'''" true,
    .escaped "\"\"\"" "\"\"\"" true, .raw "r'" "'", .raw "r\"" "\"", .escaped "'" "'" false,
    .escaped "\"" "\"" false]
  generics := true
  separators := [';']
  bindings := [.receiver]
  anchorWords := ["SentryFlutter.init".toList, "Sentry.init".toList]
  anchors := [
    ⟨wordEdge ++ lit "Sentry" ++ optional (lit "Flutter") ++ lit ".init" ++ gap ++ lit "(" ++ gap ++ lit "(" ++ gap
      ++ receiver ++ gap ++ lit ")" ++ gap ++ optional (lit "async" ++ gap) ++ lit "\x7b", .delimiter '\x7d'⟩]
  bareForm := some .receiverStatements
  callables := [
    textStart ++ lit "(" ++ noneOf "()" ++ lit ")" ++ gap ++ optional (lit "async" ++ gap)
      ++ oneOf ["=>", "\x7b"]]
  lists := [
    ⟨textStart ++ optional (lit "const" ++ space) ++ optional (lit "<" ++ noneOf ">" ++ lit ">" ++ gap)
      ++ lit "[", ']'⟩] }

end Grammar

end SnippetReview
