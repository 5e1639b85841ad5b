import SnippetReview.Pattern

set_option autoImplicit false

namespace SnippetReview

open Text

inductive Escape where
  | backslash
  | doubled
  | never
deriving DecidableEq, Repr

structure QuoteStyle where
  opening : List Char
  closing : List Char
  escape : Escape
  multiline : Bool
deriving DecidableEq, Repr

namespace QuoteStyle

def escaped (opening closing : String) (multiline : Bool) : QuoteStyle :=
  ⟨opening.toList, closing.toList, .backslash, multiline⟩

def raw (opening closing : String) : QuoteStyle := ⟨opening.toList, closing.toList, .never, true⟩

def verbatim (opening closing : String) : QuoteStyle := ⟨opening.toList, closing.toList, .doubled, true⟩

end QuoteStyle

inductive BodyEnd where
  | delimiter (closing : Char)
  | keyword (word : List Char)
  | statement
deriving DecidableEq, Repr

-- An idiom that opens a configuration. The group of its pattern names the receiver.
structure Anchor where
  pattern : Pattern
  bodyEnd : BodyEnd

inductive BareForm where
  | delimited (opening closing : Char)
  | receiverStatements
deriving DecidableEq, Repr

inductive BindingStyle where
  | token (token : List Char)
  | receiver
  | setter
  | method
deriving DecidableEq, Repr

-- A word of `lineOpeners` opens a block only where no code precedes it on its line.
structure BlockWords where
  openers : List (List Char)
  lineOpeners : List (List Char)
  closer : List Char
deriving DecidableEq, Repr

inductive NamingConvention where
  | camel
  | snake
  | pascal
deriving DecidableEq, Repr

structure ListShape where
  opening : Pattern
  closing : Char

namespace Pattern

def isNameStart (c : Char) : Bool := c.isAlpha || c == '_' || c == '$'

def isNameChar (c : Char) : Bool := isWordChar c || c == '$'

def name : Pattern := one isNameStart ++ many isNameChar

def sign : Pattern := one fun c => c == '+' || c == '-'

def digit : Pattern := one isDecimalDigit

def digits : Pattern := many fun c => isDecimalDigit c || c == '_'

def number (suffix : Pattern) : Pattern :=
  let magnitude := either (digit ++ digits ++ optional (lit "." ++ digits)) (lit "." ++ digit ++ digits)
  let exponent := one (fun c => c == 'e' || c == 'E') ++ optional sign ++ many1 isDecimalDigit
  textStart ++ group (optional sign ++ magnitude ++ optional exponent) ++ suffix ++ textEnd

end Pattern

structure Grammar where
  lineComments : List (List Char) := ["//".toList]
  blockComments : List (List Char × List Char) := [("/*".toList, "*/".toList)]
  nestedComments : Bool := false
  -- The first style whose opening delimiter fits is taken, so longer ones come first.
  quotes : List QuoteStyle := [.escaped "\"" "\"" false, .escaped "'" "'" false]
  regexLiterals : Bool := false
  generics : Bool := false
  blockWords : Option BlockWords := none
  separators : List Char := [',']
  bindings : List BindingStyle := [.token [':']]
  defaultReceiver : List Char := "options".toList
  anchorWords : List (List Char) := []
  anchors : List Anchor := []
  bareForm : Option BareForm := some (.delimited '\x7b' '\x7d')
  spreadMarkers : List (List Char) := []
  mergesContinuations : Bool := false
  positionalKey : Option String := none
  trueWords : List (List Char) := ["true".toList]
  falseWords : List (List Char) := ["false".toList]
  nullWords : List (List Char) := ["null".toList]
  optionalWrapper : Option (List Char) := none
  number : Pattern := .number (.exactly [])
  stringPrefixes : List (List Char) := []
  stringSuffixes : List (List Char) := []
  hasSymbols : Bool := false
  callables : List Pattern := []
  lists : List ListShape := [⟨.textStart ++ .lit "[", ']'⟩]
  naming : NamingConvention := .camel
  keyOverrides : List (String × String) := []

end SnippetReview
