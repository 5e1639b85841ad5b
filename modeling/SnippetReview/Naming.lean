import SnippetReview.Host.Grammar
import SnippetReview.Text.Case

/- Spellings of option keys. Canonical keys are in camel case; snippets use camel, snake or Pascal case, and
   some write acronyms in capitals. Two spellings mean the same option when they fold alike. -/

set_option autoImplicit false

namespace SnippetReview.Naming

open Text

-- Joins words at their underscores; `done` is what was read so far, reversed. An underscore stays where no
-- letter follows it.
def joinWords (done : List Char) : List Char → List Char
  | [] => done.reverse
  | '_' :: c :: rest =>
    if isAlphabetic c then joinWords ((if done.isEmpty then c.toLower else c.toUpper) :: done) rest
    else joinWords ('_' :: done) (c :: rest)
  | c :: rest => joinWords (c :: done) rest

def lowerFirst : List Char → List Char
  | [] => []
  | c :: rest => if isUppercase c then lowerChar c ++ rest else c :: rest

def upperFirst : List Char → List Char
  | [] => []
  | c :: rest => upperChar c ++ rest

def canonicalChars (key : List Char) : List Char :=
  if key.contains '_' then joinWords [] key else lowerFirst key

def canonical (key : String) : String := String.ofList (canonicalChars key.toList)

def snakeChar (c : Char) : List Char := if isUppercase c then '_' :: lowerChar c else [c]

def snakeChars : List Char → List Char
  | [] => []
  | c :: rest => (if isUppercase c then lowerChar c else [c]) ++ rest.flatMap snakeChar

def snake (key : String) : String := String.ofList (snakeChars key.toList)

def pascal (key : String) : String := String.ofList (upperFirst (canonicalChars key.toList))

def foldChars (key : List Char) : List Char := (key.filter (· != '_')).flatMap lowerChar

def fold (key : String) : String := String.ofList (foldChars key.toList)

end SnippetReview.Naming

namespace SnippetReview

def NamingConvention.apply (convention : NamingConvention) (key : String) : String :=
  match convention with
  | .camel => key
  | .snake => Naming.snake key
  | .pascal => Naming.pascal key

-- The spelling of a canonical key in a language: its own one, or else by its convention.
def Grammar.nativeKey (g : Grammar) (key : String) : String :=
  (g.keyOverrides.lookup key).getD (g.naming.apply key)

end SnippetReview
