import SnippetReview.Decimal.Notation

set_option autoImplicit false

namespace SnippetReview

inductive Value where
  | string (text : String)
  | number (value : Float)
  | boolean (value : Bool)
  | null
  | array (items : List Value)
  | raw (text : String)
deriving Inhabited

inductive ValueType where
  | string
  | number
  | boolean
  | null
  | array
  | object
  | callback
  | regex
  | expression
deriving DecidableEq, Repr

def ValueType.name : ValueType → String
  | string => "string"
  | number => "number"
  | boolean => "boolean"
  | null => "null"
  | array => "array"
  | object => "object"
  | callback => "callback"
  | regex => "regex"
  | expression => "expression"

namespace Value

def asString? : Value → Option String
  | string text => some text
  | _ => none

def asNumber? : Value → Option Float
  | number value => some value
  | _ => none

def asBoolean? : Value → Option Bool
  | boolean value => some value
  | _ => none

mutual

def toText : Value → String
  | string text => "\"" ++ text ++ "\""
  | number value => Decimal.plain value
  | boolean value => if value then "true" else "false"
  | null => "null"
  | array items => "[" ++ ", ".intercalate (toTexts items) ++ "]"
  | raw text => text

def toTexts : List Value → List String
  | [] => []
  | item :: rest => item.toText :: toTexts rest

end

end Value

end SnippetReview
