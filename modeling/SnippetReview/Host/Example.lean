import SnippetReview.Decimal.Notation
import SnippetReview.Host.BlockGrammars
import SnippetReview.Naming

set_option autoImplicit false

namespace SnippetReview

inductive ExampleValue where
  | string (text : String)
  | number (value : Float)
  | boolean (value : Bool)
  | strings (items : List String)
  | callback

namespace Host

def renderString : Host → String → String
  | ruby, text | php, text | dart, text => "'" ++ text ++ "'"
  | rust, text => "\"" ++ text ++ "\".into()"
  | _, text => "\"" ++ text ++ "\""

def renderList (host : Host) (items : List String) : String :=
  let items := ", ".intercalate items
  match host with
  | go => "[]string\x7b" ++ items ++ "\x7d"
  | java => "List.of(" ++ items ++ ")"
  | kotlin => "listOf(" ++ items ++ ")"
  | dotnet => "new[] \x7b " ++ items ++ " \x7d"
  | rust => "vec![" ++ items ++ "]"
  | _ => "[" ++ items ++ "]"

def renderCallback : Host → String
  | javascript => "(event, hint) => event"
  | python => "lambda event, hint: event"
  | ruby => "lambda \x7b |event, hint| event \x7d"
  | php =>
    "function (\\Sentry\\Event $event, ?\\Sentry\\EventHint $hint): ?\\Sentry\\Event \x7b return $event; \x7d"
  | go => "func(event *sentry.Event, hint *sentry.EventHint) *sentry.Event \x7b return event \x7d"
  | java => "(event, hint) -> event"
  | kotlin => "SentryOptions.BeforeSendCallback \x7b event, _ -> event \x7d"
  | dotnet => "(sentryEvent, hint) => sentryEvent"
  | cocoa => "\x7b event in event \x7d"
  | dart => "(event, hint) => event"
  | rust => "Some(std::sync::Arc::new(|event| Some(event)))"
  | elixir => "\x7bMyApp.Sentry, :before_send\x7d"

def renderBoolean (host : Host) (value : Bool) : String :=
  let words := if value then host.grammar.trueWords else host.grammar.falseWords
  String.ofList (words.headD [])

def renderLiteral (host : Host) : ExampleValue → String
  | .string text => if host = rust then "Some(" ++ host.renderString text ++ ")" else host.renderString text
  | .number value => Decimal.withDecimal value
  | .boolean value => host.renderBoolean value
  | .strings items => host.renderList (items.map host.renderString)
  | .callback => host.renderCallback

def renderAssignment (host : Host) (key literal : String) : String :=
  match host with
  | javascript | go | rust => key ++ ": " ++ literal ++ ","
  | python => key ++ "=" ++ literal ++ ","
  | ruby => "config." ++ key ++ " = " ++ literal
  | php => "'" ++ key ++ "' => " ++ literal ++ ","
  | java => "options.set" ++ Naming.pascal key ++ "(" ++ literal ++ ");"
  | kotlin | cocoa => "options." ++ key ++ " = " ++ literal
  | dotnet | dart => "options." ++ key ++ " = " ++ literal ++ ";"
  | elixir => key ++ ": " ++ literal

def renderExample (host : Host) (key : String) (value : ExampleValue) : String :=
  host.renderAssignment (host.grammar.nativeKey key) (host.renderLiteral value)

end Host

end SnippetReview
