import SnippetReview.Document

set_option autoImplicit false

namespace SnippetReview.Document.Json

def hexDigit (n : Nat) : Char := Nat.digitChar n

def escapedChar (c : Char) : List Char :=
  if c == '"' then ['\\', '"']
  else if c == '\\' then ['\\', '\\']
  else if c == '\n' then ['\\', 'n']
  else if c == '\r' then ['\\', 'r']
  else if c == '\t' then ['\\', 't']
  else if c == '\x08' then ['\\', 'b']
  else if c == '\x0C' then ['\\', 'f']
  else if c.toNat < 32 then ['\\', 'u', '0', '0', hexDigit (c.toNat / 16), hexDigit (c.toNat % 16)]
  else [c]

def quoted (s : String) : String := "\"" ++ String.ofList (s.toList.flatMap escapedChar) ++ "\""

def indentation (level : Nat) : String := String.ofList (List.replicate (2 * level) ' ')

def enclosed (opening closing : String) (level : Nat) (items : List String) : String :=
  if items.isEmpty then opening ++ closing
  else
    let lines := items.map fun item => indentation (level + 1) ++ item
    opening ++ "\n" ++ ",\n".intercalate lines ++ "\n" ++ indentation level ++ closing

def decimalText (x : Float) : String := if Decimal.isFinite x then Decimal.document "+" x else "null"

mutual

def written (level : Nat) : Document → String
  | .null => "null"
  | .boolean value => if value then "true" else "false"
  | .integer value => toString value
  | .decimal value => decimalText value
  | .text value => quoted value
  | .list items => enclosed "[" "]" level (writtenItems (level + 1) items)
  | .record fields => enclosed "\x7b" "\x7d" level (writtenFields (level + 1) fields)

def writtenItems (level : Nat) : List Document → List String
  | [] => []
  | item :: rest => written level item :: writtenItems level rest

def writtenFields (level : Nat) : List (String × Document) → List String
  | [] => []
  | (name, value) :: rest => (quoted name ++ ": " ++ written level value) :: writtenFields level rest

end

end SnippetReview.Document.Json

namespace SnippetReview.Document

def toJson (d : Document) : String := Json.written 0 d

end SnippetReview.Document
