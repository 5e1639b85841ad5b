import SnippetReview.Decimal.Reading
import SnippetReview.Snippet.Statement
import SnippetReview.Snippet.Value

set_option autoImplicit false

namespace SnippetReview

open Text

structure Inferred where
  value : Value
  type : ValueType
  tooDeep : Bool := false

namespace Inferred

def raw (text : List Char) (type : ValueType) : Inferred := ⟨.raw (String.ofList text), type, false⟩

def unwrapOptional (g : Grammar) (text : List Char) : List Char :=
  match g.optionalWrapper with
  | none => text
  | some wrapper =>
    if wrapper.isPrefixOf text then
      match trimStart (text.drop wrapper.length) with
      | '(' :: inner =>
        match matchingClose g inner ')' with
        | some v => if v.rest.isEmpty then trim (takeBytes v.offset inner) else text
        | none => text
      | _ => text
    else text

def number? (g : Grammar) (text : List Char) : Option Float := do
  let found ← g.number.find? text
  let digits ← found.group
  let value ← Decimal.read? (String.ofList (digits.filter (· != '_')))
  if Decimal.isFinite value then some value else none

def hasStringPrefix (text letters : List Char) : Bool :=
  (text.take letters.length).map Char.toLower == letters.map Char.toLower
    && (match text.drop letters.length with
      | c :: _ => c == '"' || c == '\''
      | [] => false)

def withoutStringPrefix (g : Grammar) (text : List Char) : List Char :=
  match g.stringPrefixes.find? (hasStringPrefix text) with
  | some letters => text.drop letters.length
  | none => text

def string? (g : Grammar) (text : List Char) : Option (List Char) :=
  let text := withoutStringPrefix g text
  match segments g text with
  | first :: _ =>
    if first.kind = .quoted && first.isClosed then
      let rest := trim (text.drop first.text.length)
      if rest.isEmpty || g.stringSuffixes.contains rest then some first.content else none
    else none
  | [] => none

def symbol? (g : Grammar) (text : List Char) : Option (List Char) :=
  match text with
  | ':' :: c :: rest =>
    let marked := rest.getLast? == some '?' || rest.getLast? == some '!'
    let body := if marked then rest.dropLast else rest
    if g.hasSymbols && (c.isAlpha || c == '_') && body.all isWordChar then some (c :: rest) else none
  | _ => none

def listInterior? (g : Grammar) (text : List Char) : Option (List Char) :=
  g.lists.findSome? fun shape => do
    let found ← shape.opening.find? text
    let interior := found.stop.rest
    let v ← matchingClose g interior shape.closing
    if v.rest.isEmpty then some (takeBytes v.offset interior) else none

def isRegex (g : Grammar) (text : List Char) : Bool :=
  g.regexLiterals &&
    match segments g text with
    | [only] => only.kind = .regex
    | _ => false

def scalar? (g : Grammar) (text : List Char) : Option Inferred :=
  if g.nullWords.contains text then some ⟨.null, .null, false⟩
  else if g.trueWords.contains text then some ⟨.boolean true, .boolean, false⟩
  else if g.falseWords.contains text then some ⟨.boolean false, .boolean, false⟩
  else if g.callables.any (·.matchesIn text) then some (raw text .callback)
  else
    match number? g text with
    | some value => some ⟨.number value, .number, false⟩
    | none =>
      ((string? g text).or (symbol? g text)).map fun content => ⟨.string (String.ofList content), .string, false⟩

def other (g : Grammar) (text : List Char) : Inferred :=
  if isRegex g text then raw text .regex
  else if text.head? == some '\x7b' then raw text .object
  else raw text .expression

def elements (g : Grammar) (interior : List Char) : List (List Char) :=
  ((split g 0 interior [',']).map Slice.text).filter fun item => !isSpread g item

def within (g : Grammar) : Nat → List Char → Inferred
  | levels, text =>
    let text := unwrapOptional g text
    match scalar? g text with
    | some inferred => inferred
    | none =>
      match listInterior? g text with
      | none => other g text
      | some interior =>
        match levels with
        | 0 => { raw text .array with tooDeep := true }
        | levels + 1 =>
          let items := (elements g interior).map (within g levels)
          ⟨.array (items.map (·.value)), .array, items.any (·.tooDeep)⟩

def ofText (g : Grammar) (levels : Nat) (text : List Char) : Inferred := within g levels (trim text)

end Inferred

end SnippetReview
