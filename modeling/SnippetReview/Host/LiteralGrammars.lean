import SnippetReview.Host.Grammar

set_option autoImplicit false

namespace SnippetReview

open Text

namespace Pattern

def isDotted (c : Char) : Bool := isWordChar c || c == '.'

def noneOf (stops : String) : Pattern := many fun c => !stops.toList.contains c

def indent : Pattern := lineStart ++ many fun c => c == ' ' || c == '\t'

def suffixes (words : List String) : Pattern := optional (oneOf words)

end Pattern

open Pattern

namespace Grammar

def javascript : Grammar := {
  quotes := [.escaped "\"" "\"" false, .escaped "'" "'" false, .escaped "`" "`" true]
  regexLiterals := true
  bindings := [.token [':'], .method]
  anchorWords := ["Sentry.init".toList]
  anchors := [⟨wordEdge ++ lit "Sentry.init" ++ gap ++ lit "(" ++ gap ++ lit "\x7b", .delimiter '\x7d'⟩]
  spreadMarkers := ["...".toList]
  nullWords := ["null".toList, "undefined".toList]
  callables := [
    textStart ++ optional (lit "async" ++ space) ++ lit "function" ++ wordEdge,
    textStart ++ optional (lit "async" ++ space) ++ either (lit "(" ++ noneOf "()" ++ lit ")") name ++ gap ++ lit "=>"] }

def python : Grammar := {
  lineComments := ["#".toList]
  blockComments := []
  quotes := [.escaped "\"\"\"" "\"\"\"" true, .escaped "'''" "'''" true, .escaped "\"" "\"" false,
    .escaped "'" "'" false]
  bindings := [.token ['=']]
  anchorWords := ["sentry_sdk.init".toList]
  anchors := [
    ⟨wordEdge ++ lit "sentry_sdk.init" ++ gap ++ lit "(", .delimiter ')'⟩,
    ⟨indent ++ lit "init" ++ gap ++ lit "(", .delimiter ')'⟩]
  bareForm := some (.delimited '(' ')')
  spreadMarkers := ["**".toList, "*".toList]
  mergesContinuations := true
  positionalKey := some "dsn"
  trueWords := ["True".toList]
  falseWords := ["False".toList]
  nullWords := ["None".toList]
  stringPrefixes := ["rb", "br", "rf", "fr", "r", "b", "f", "u"].map String.toList
  callables := [textStart ++ lit "lambda" ++ wordEdge]
  naming := .snake }

def php : Grammar := {
  lineComments := ["//".toList, "#".toList]
  quotes := [.escaped "\"" "\"" true, .escaped "'" "'" true]
  bindings := [.token ['=', '>']]
  anchorWords := ["Sentry\\init".toList]
  anchors := [
    ⟨optional (lit "\\") ++ wordEdge ++ lit "Sentry\\init" ++ gap ++ lit "(" ++ gap ++ lit "[", .delimiter ']'⟩,
    ⟨optional (lit "\\") ++ wordEdge ++ lit "Sentry\\init" ++ gap ++ lit "(" ++ gap ++ lit "array" ++ gap ++ lit "(",
      .delimiter ')'⟩,
    ⟨indent ++ lit "return" ++ gap ++ lit "[", .delimiter ']'⟩]
  bareForm := some (.delimited '[' ']')
  spreadMarkers := ["...".toList]
  trueWords := ["true".toList, "TRUE".toList]
  falseWords := ["false".toList, "FALSE".toList]
  nullWords := ["null".toList, "NULL".toList]
  callables := [
    textStart ++ optional (lit "static" ++ space) ++ lit "function" ++ wordEdge,
    textStart ++ optional (lit "static" ++ space) ++ lit "fn" ++ gap ++ lit "("]
  lists := [⟨textStart ++ lit "[", ']'⟩, ⟨textStart ++ lit "array" ++ gap ++ lit "(", ')'⟩]
  naming := .snake }

def go : Grammar := {
  quotes := [.escaped "\"" "\"" false, .escaped "'" "'" false, .raw "`" "`"]
  anchorWords := ["sentry.Init".toList]
  anchors := [
    ⟨wordEdge ++ lit "sentry.Init" ++ gap ++ lit "(" ++ gap ++ optional (lit "&" ++ gap) ++ lit "sentry.ClientOptions"
      ++ gap ++ lit "\x7b", .delimiter '\x7d'⟩,
    ⟨wordEdge ++ lit "sentry.ClientOptions" ++ gap ++ lit "\x7b", .delimiter '\x7d'⟩]
  nullWords := ["nil".toList]
  callables := [textStart ++ lit "func" ++ gap ++ lit "("]
  lists := [⟨textStart ++ lit "[]" ++ gap ++ optional (lit "*") ++ many1 isDotted ++ gap ++ lit "\x7b", '\x7d'⟩]
  naming := .pascal
  keyOverrides := [("sendDefaultPii", "SendDefaultPII")] }

def rust : Grammar := {
  nestedComments := true
  quotes := [.raw "r##\"" "\"##", .raw "r#\"" "\"#", .raw "r\"" "\"", .escaped "b\"" "\"" true,
    .escaped "\"" "\"" true]
  generics := true
  anchorWords := ["sentry::init".toList, "ClientOptions".toList]
  anchors := [⟨wordEdge ++ optional (lit "sentry::") ++ lit "ClientOptions" ++ gap ++ lit "\x7b", .delimiter '\x7d'⟩]
  spreadMarkers := ["..".toList]
  nullWords := ["None".toList]
  optionalWrapper := some "Some".toList
  number := .number (optional (optional (lit "_")
    ++ oneOf ["f32", "f64", "u8", "u16", "u32", "u64", "usize", "i32", "i64"]))
  stringSuffixes := [".into()".toList, ".to_string()".toList, ".to_owned()".toList]
  callables := [
    textStart ++ optional (lit "move" ++ space) ++ lit "|",
    textStart ++ optional (lit "std::sync::") ++ oneOf ["Arc", "Box"] ++ lit "::new" ++ gap ++ lit "(" ++ gap
      ++ optional (lit "move" ++ space) ++ lit "|"]
  lists := [
    ⟨textStart ++ lit "vec!" ++ gap ++ lit "[", ']'⟩,
    ⟨textStart ++ optional (lit "&") ++ gap ++ lit "[", ']'⟩]
  naming := .snake }

end Grammar

end SnippetReview
