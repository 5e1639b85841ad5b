import SnippetReview.Search
import SnippetReview.Text.Bytes

/- Lines and columns. `Position.of` counts the line feeds and characters before an offset; a `LineIndex`
   answers the same from a table of line starts, and counts on from its previous answer where that lies
   earlier on the same line. -/

set_option autoImplicit false

namespace SnippetReview.Text

structure Position where
  line : Nat
  column : Nat
deriving DecidableEq, Repr

namespace Position

def toText (p : Position) : String := s!"line {p.line}, column {p.column}"

def past (p : Position) (c : Char) : Position :=
  if c = '\n' then ⟨p.line + 1, 1⟩ else ⟨p.line, p.column + 1⟩

def of (s : List Char) (offset : Nat) : Position := (takeBytes offset s).foldl past ⟨1, 1⟩

end Position

structure Lookup where
  offset : Nat
  column : Nat
  rest : List Char

-- The line starts of a text, each with the text from there on, and the last lookup.
structure LineIndex where
  size : Nat
  starts : Array (Nat × List Char)
  last : Option Lookup

namespace LineIndex

def startsFrom (offset : Nat) (found : Array (Nat × List Char)) : List Char → Array (Nat × List Char)
  | [] => found
  | c :: rest =>
    let next := offset + c.utf8Size
    startsFrom next (if c = '\n' then found.push (next, rest) else found) rest

def ofText (s : List Char) : LineIndex := ⟨Text.size s, startsFrom 0 #[(0, s)] s, none⟩

def line (index : LineIndex) (offset : Nat) : Nat :=
  Search.boundary (fun start => start.1 ≤ min offset index.size) index.starts

def origin (index : LineIndex) (offset line : Nat) : Lookup :=
  let start := index.starts[line - 1]?.getD (0, [])
  match index.last with
  | some last => if start.1 ≤ last.offset ∧ last.offset ≤ offset then last else ⟨start.1, 1, start.2⟩
  | none => ⟨start.1, 1, start.2⟩

def position (index : LineIndex) (offset : Nat) : Position × LineIndex :=
  let offset := min offset index.size
  let line := index.line offset
  let origin := index.origin offset line
  let count := charsWithin (offset - origin.offset) origin.rest
  let column := origin.column + count
  let here : Lookup := ⟨origin.offset + Text.size (origin.rest.take count), column, origin.rest.drop count⟩
  (⟨line, column⟩, { index with last := some here })

end LineIndex

end SnippetReview.Text
