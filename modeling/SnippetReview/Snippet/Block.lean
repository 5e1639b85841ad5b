import SnippetReview.Host.BlockGrammars
import SnippetReview.Snippet.Problem
import SnippetReview.Snippet.Statement

set_option autoImplicit false

namespace SnippetReview

open Text

structure CodeMap where
  code : Array (Nat × Nat)

namespace CodeMap

def ofText (g : Grammar) (text : List Char) : CodeMap :=
  ⟨(((segments g text).filter fun s => s.kind = .code).map fun s => (s.start, s.stop)).toArray⟩

def isCode (m : CodeMap) (offset : Nat) : Bool :=
  match Search.boundary (fun span => span.1 ≤ offset) m.code with
  | 0 => false
  | n + 1 => (m.code[n]?.map fun span => decide (offset < span.2)).getD false

end CodeMap

structure Block where
  body : Slice
  receiver : List Char

namespace Block

def bodySize? (g : Grammar) (anchorText body : List Char) : BodyEnd → Option Nat
  | .delimiter closing => (matchingClose g body closing).map (·.offset)
  | .keyword word => (findOutside g body fun v => v.word == some word).map (·.offset)
  | .statement =>
    if (trimEnd anchorText).getLast? == some ',' then
      let stop := findOutside g body fun v => v.char == '\n' && (v.previous.map (· != ',')).getD false
      some ((stop.map (·.offset)).getD (Text.size body))
    else some 0

def unwrapList (g : Grammar) (body : Slice) : Slice :=
  let text := body.text
  match trimStart text with
  | '[' :: inner =>
    let opened := Text.size text - Text.size inner
    match matchingClose g inner ']' with
    | some v => if (trim v.rest).isEmpty then ⟨body.start + opened, v.offset, inner⟩ else body
    | none => body
  | _ => body

def ofAnchor (g : Grammar) (stripped : List Char) (anchor : Anchor) (found : Pattern.Match) : Except Notice Block :=
  let body := found.stop.rest
  match bodySize? g found.text body anchor.bodyEnd with
  | none =>
    .error ⟨.neverClosed (String.ofList (trim found.text)), some (Position.of stripped found.start.offset)⟩
  | some size =>
    let body : Slice := ⟨found.stop.offset, size, body⟩
    let body := if anchor.bodyEnd = .statement then unwrapList g body else body
    .ok ⟨body, found.group.getD g.defaultReceiver⟩

-- The first anchor with a match that starts in the code, and its first such match.
def firstAnchor? (g : Grammar) (code : CodeMap) (stripped : List Char) : Option (Anchor × Pattern.Match) :=
  g.anchors.findSome? fun anchor =>
    ((anchor.pattern.all stripped).find? fun found => code.isCode found.start.offset).map fun found => (anchor, found)

def ofLiteral? (g : Grammar) (stripped : List Char) (opening closing : Char) : Option Block :=
  match trimStart stripped with
  | c :: inner =>
    if c == opening then
      match matchingClose g inner closing with
      | some v =>
        if (trim v.rest).isEmpty then
          some ⟨⟨Text.size stripped - Text.size inner, v.offset, inner⟩, g.defaultReceiver⟩
        else none
      | none => none
    else none
  | [] => none

def ofStatements? (g : Grammar) (stripped : List Char) : Option Block :=
  let trimmed := trim stripped
  let receiver := trimmed.takeWhile fun c => isIdentChar c || c == '$'
  if receiver.isEmpty || (trimmed.drop receiver.length).head? != some '.' then none
  else
    match split g 0 stripped g.separators with
    | [] => none
    | first :: _ =>
      let styles := g.bindings.filter fun style => style = .receiver || style = .setter
      if styles.any fun style => (Binding.ofStyle? g receiver first style).isSome then
        some ⟨Slice.ofText 0 stripped, receiver⟩
      else none

def ofBare? (g : Grammar) (stripped : List Char) : Option Block :=
  match g.bareForm with
  | none => none
  | some (.delimited opening closing) => ofLiteral? g stripped opening closing
  | some .receiverStatements => ofStatements? g stripped

def missing (host : Host) (code : CodeMap) (stripped : List Char) : Notice :=
  let named := host.grammar.anchorWords.findSome? fun word =>
    (((Pattern.exactly word).all stripped).find? fun found => code.isCode found.start.offset).map fun found =>
      (word, found.start.offset)
  match named with
  | some (word, offset) => ⟨.noConfiguration (String.ofList word), some (Position.of stripped offset)⟩
  | none => ⟨.nothingFound host, none⟩

def locate (host : Host) (stripped : List Char) : Except Notice Block :=
  let g := host.grammar
  let code := CodeMap.ofText g stripped
  match firstAnchor? g code stripped with
  | some (anchor, found) => ofAnchor g stripped anchor found
  | none =>
    match ofBare? g stripped with
    | some block => .ok block
    | none => .error (missing host code stripped)

end Block

end SnippetReview
