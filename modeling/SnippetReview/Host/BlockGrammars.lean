import SnippetReview.Host.Basic
import SnippetReview.Host.ReceiverGrammars
import SnippetReview.Host.LiteralGrammars

set_option autoImplicit false

namespace SnippetReview

open Text

open Pattern

namespace Grammar

def rubyBlock (opening : Pattern) : Pattern :=
  opening ++ gap ++ lit "|" ++ gap ++ group word ++ gap ++ lit "|"

def ruby : Grammar := {
  lineComments := ["#".toList]
  blockComments := [("=begin".toList, "=end".toList)]
  quotes := [.escaped "\"" "\"" true, .escaped "'" "'" true]
  blockWords := some {
    openers := ["do", "begin", "def", "class", "module", "case"].map String.toList
    lineOpeners := ["if", "unless", "while", "until"].map String.toList
    closer := "end".toList }
  separators := ['\n', ';']
  bindings := [.receiver]
  defaultReceiver := "config".toList
  anchorWords := ["Sentry.init".toList]
  anchors := [
    ⟨rubyBlock (wordEdge ++ lit "Sentry.init" ++ space ++ lit "do"), .keyword "end".toList⟩,
    ⟨rubyBlock (wordEdge ++ lit "Sentry.init" ++ gap ++ lit "\x7b"), .delimiter '\x7d'⟩,
    ⟨rubyBlock (wordEdge ++ lit "Raven.configure" ++ space ++ lit "do"), .keyword "end".toList⟩]
  bareForm := some .receiverStatements
  nullWords := ["nil".toList]
  hasSymbols := true
  callables := [
    textStart ++ oneOf ["lambda", "proc"] ++ wordEdge,
    textStart ++ lit "->",
    textStart ++ lit "Proc.new" ++ wordEdge]
  naming := .snake
  keyOverrides := [("ignoreErrors", "excluded_exceptions")] }

def elixir : Grammar := {
  lineComments := ["#".toList]
  blockComments := []
  quotes := [.escaped "\"\"\"" "\"\"\"" true, .escaped "'''" "'''" true, .escaped "\"" "\"" true,
    .escaped "'" "'" true]
  blockWords := some {
    openers := ["do".toList, "fn".toList]
    lineOpeners := []
    closer := "end".toList }
  anchorWords := [":sentry".toList]
  anchors := [
    ⟨indent ++ lit "config" ++ space ++ lit ":sentry" ++ wordEdge ++ gap ++ optional (lit ","), .statement⟩]
  bareForm := some (.delimited '[' ']')
  nullWords := ["nil".toList]
  hasSymbols := true
  callables := [
    textStart ++ lit "fn" ++ wordEdge,
    textStart ++ lit "&",
    textStart ++ lit "\x7b" ++ gap ++ one Char.isUpper ++ many isDotted ++ gap ++ lit "," ++ gap ++ lit ":" ++ word
      ++ gap ++ lit "\x7d" ++ textEnd]
  naming := .snake
  keyOverrides := [("environment", "environment_name")] }

end Grammar

def Host.grammar : Host → Grammar
  | .javascript => .javascript
  | .python => .python
  | .ruby => .ruby
  | .php => .php
  | .go => .go
  | .java => .java
  | .kotlin => .kotlin
  | .dotnet => .dotnet
  | .cocoa => .cocoa
  | .dart => .dart
  | .rust => .rust
  | .elixir => .elixir

end SnippetReview
