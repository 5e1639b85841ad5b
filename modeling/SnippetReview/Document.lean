import SnippetReview.Decimal.Notation

set_option autoImplicit false

namespace SnippetReview

inductive Document where
  | null
  | boolean (value : Bool)
  | integer (value : Nat)
  | decimal (value : Float)
  | text (value : String)
  | list (items : List Document)
  | record (fields : List (String × Document))

namespace Document

def texts (items : List String) : Document := list (items.map text)

def optionalField (name : String) (value : Option Document) : List (String × Document) :=
  match value with
  | some value => [(name, value)]
  | none => []

def textsField (name : String) (items : List String) : List (String × Document) :=
  if items.isEmpty then [] else [(name, texts items)]

end Document

end SnippetReview
