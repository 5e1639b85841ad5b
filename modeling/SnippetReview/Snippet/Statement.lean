import SnippetReview.Snippet.Walk

set_option autoImplicit false

namespace SnippetReview

open Text

def continuationChars : List Char := [',', '=', '+', '.', '&', '|', '\\']

def Visit.continues (v : Visit) : Bool :=
  v.char == '\n' && (v.previous.map continuationChars.contains).getD false

def cuts (g : Grammar) (text : List Char) (separators : List Char) : List Visit :=
  (visits g text).filter fun v => v.depth == 0 && separators.contains v.char && !v.continues

def keepTrimmed (piece : Slice) (pieces : List Slice) : List Slice :=
  let piece := piece.trim
  if piece.size = 0 then pieces else piece :: pieces

-- The pieces between cuts, from `start` up to `stop`, where `tail` is the text from `start` on.
def piecesFrom (base stop : Nat) (done : List Slice) (start : Nat) (tail : List Char) : List Visit → List Slice
  | [] => (keepTrimmed ⟨base + start, stop - start, tail⟩ done).reverse
  | v :: rest =>
    piecesFrom base stop (keepTrimmed ⟨base + start, v.offset - start, tail⟩ done) (v.offset + 1) v.rest rest

-- Cuts a text at separators outside all brackets. The text starts at `base` in its source.
def split (g : Grammar) (base : Nat) (text : List Char) (separators : List Char) : List Slice :=
  piecesFrom base (Text.size text) [] 0 text (cuts g text separators)

def isSpread (g : Grammar) (text : List Char) : Bool := g.spreadMarkers.any (·.isPrefixOf text)

def isLookalike (token : List Char) (before after : Option Char) : Bool :=
  let preceded (chars : List Char) := (before.map chars.contains).getD false
  let followed (chars : List Char) := (after.map chars.contains).getD false
  if token == ['='] then preceded ['=', '!', '<', '>'] || followed ['=', '>', '~']
  else if token == [':'] then preceded [':'] || followed [':']
  else if token == ['=', '>'] then preceded ['=']
  else false

def findToken (g : Grammar) (text : List Char) (token : List Char) : Option Visit :=
  findOutside g text fun v =>
    token.isPrefixOf (v.char :: v.rest)
      && !isLookalike token v.before (v.rest.drop (token.length - 1)).head?

def boundText? (g : Grammar) (text : List Char) : Option (List Char) :=
  g.bindings.findSome? fun
    | .token token => (findToken g text token).map fun v => v.rest.drop (token.length - 1)
    | _ => none

def awaitsBody (g : Grammar) (text : List Char) : Bool :=
  let value := trimStart ((boundText? g text).getD text)
  g.callables.any (·.matchesIn value) && (findToken g value [':']).isNone

def mergeInto (g : Grammar) (done : List Slice) (item : Slice) : List Slice :=
  match done with
  | [] => [item]
  | last :: earlier =>
    if (boundText? g item.text).isNone || awaitsBody g last.text then last.extendTo item.stop :: earlier
    else item :: done

-- Puts function parameters together again that were cut at their commas: a statement without a binding
-- belongs to the one before it, as does whatever follows unfinished parameters.
def mergeContinuations (g : Grammar) (items : List Slice) : List Slice :=
  (items.foldl (mergeInto g) []).reverse

def isName : List Char → Bool
  | [] => false
  | c :: rest => Pattern.isNameStart c && rest.all Pattern.isNameChar

-- Whether what is left of a text after a dot is names between dots. `inName` tells that the current name has
-- begun.
def isDottedTail (inName : Bool) : List Char → Bool
  | [] => inName
  | c :: rest =>
    if c == '.' then inName && isDottedTail false rest
    else if inName then Pattern.isNameChar c && isDottedTail true rest
    else Pattern.isNameStart c && isDottedTail true rest

def isKey (s : List Char) : Bool := isDottedTail false s

def isQuotedKey (s : List Char) : Bool :=
  !s.isEmpty && s.all fun c => Pattern.isNameChar c || c == '.' || c == '-'

def cleanKey? (written : List Char) : Option String :=
  let key := trim written
  let quoted :=
    match key with
    | c :: _ :: _ => (c == '"' || c == '\'' || c == '`') && key.getLast? == some c
    | _ => false
  if quoted then
    let inner := (key.drop 1).dropLast
    if isQuotedKey inner then some (String.ofList inner) else none
  else if isKey key then some (String.ofList key) else none

-- What a statement binds: a key, and the piece of the source that is its value. A method is its own value.
structure Binding where
  key : String
  value : Slice
  isMethod : Bool := false

namespace Binding

def valueFrom (item : Slice) (offset : Nat) (tail : List Char) : Slice :=
  Slice.trim ⟨item.start + offset, item.size - offset, tail⟩

def ofToken? (g : Grammar) (item : Slice) (token : List Char) : Option Binding := do
  let text := item.text
  let v ← findToken g text token
  let key ← cleanKey? (takeBytes v.offset text)
  some ⟨key, valueFrom item (v.offset + token.length) (v.rest.drop (token.length - 1)), false⟩

def afterReceiver? (receiver text : List Char) : Option (List Char) :=
  if receiver.isPrefixOf text then
    match text.drop receiver.length with
    | '.' :: rest => some rest
    | _ => none
  else none

def isOperatorSign (c : Char) : Bool := c == '+' || c == '-' || c == '*' || c == '|' || c == '&' || c == '?'

def ofReceiver? (g : Grammar) (receiver : List Char) (item : Slice) : Option Binding := do
  let text := item.text
  let rest ← afterReceiver? receiver text
  let v ← findToken g rest ['=']
  let key := trimEnd (dropEndWhile isOperatorSign (trimEnd (takeBytes v.offset rest)))
  if isKey key then
    let offset := Text.size text - Text.size rest + v.offset + 1
    some ⟨String.ofList key, valueFrom item offset v.rest, false⟩
  else none

def setterProperty? (method : List Char) : Option (List Char) :=
  if "set".toList.isPrefixOf method || "Set".toList.isPrefixOf method then
    let property := method.drop 3
    if (property.head?.map Char.isUpper).getD false then some property else none
  else none

def propertyKey (naming : NamingConvention) (property : List Char) : String :=
  match naming, property with
  | .pascal, _ => String.ofList property
  | _, c :: rest => String.ofList (c.toLower :: rest)
  | _, [] => ""

def ofSetter? (g : Grammar) (receiver : List Char) (item : Slice) : Option Binding := do
  let text := item.text
  let rest ← afterReceiver? receiver text
  let property ← setterProperty? (rest.takeWhile isIdentChar)
  let key := propertyKey g.naming property
  let arguments := trimStart (rest.dropWhile isIdentChar)
  let opened := Text.size text - Text.size arguments
  match arguments with
  | '(' :: inner =>
    let v ← matchingClose g inner ')'
    if (trim v.rest).isEmpty then some ⟨key, Slice.trim ⟨item.start + opened + 1, v.offset, inner⟩, false⟩ else none
  | '\x7b' :: inner =>
    let v ← matchingClose g inner '\x7d'
    if (trim v.rest).isEmpty then some ⟨key, ⟨item.start + opened, v.offset + 2, arguments⟩, false⟩ else none
  | _ => none

def methodHead : Pattern :=
  .textStart
    ++ .either (.lit "async" ++ .space ++ .optional (.lit "*" ++ .gap)) (.optional (.lit "*") ++ .gap)
    ++ .group .name ++ .gap ++ .lit "("

def ofMethod? (item : Slice) : Option Binding := do
  let text := item.text
  let found ← methodHead.find? text
  let name ← found.group
  if name == "function".toList || text.getLast? != some '\x7d' then none
  else some ⟨String.ofList name, item, true⟩

def ofStyle? (g : Grammar) (receiver : List Char) (item : Slice) : BindingStyle → Option Binding
  | .token token => ofToken? g item token
  | .receiver => ofReceiver? g receiver item
  | .setter => ofSetter? g receiver item
  | .method => ofMethod? item

def ofItem? (g : Grammar) (receiver : List Char) (item : Slice) : Option Binding :=
  g.bindings.findSome? (ofStyle? g receiver item)

end Binding

end SnippetReview
