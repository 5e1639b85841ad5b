/- Texts as lists of characters with offsets counted in bytes of their UTF-8 form. A cut that falls inside a
   character moves down to where the character starts. -/

set_option autoImplicit false

namespace SnippetReview.Text

def sizeFrom (sum : Nat) : List Char → Nat
  | [] => sum
  | c :: rest => sizeFrom (sum + c.utf8Size) rest

def size (s : List Char) : Nat := sizeFrom 0 s

def charsWithinFrom (count bytes : Nat) : List Char → Nat
  | [] => count
  | c :: rest => if c.utf8Size ≤ bytes then charsWithinFrom (count + 1) (bytes - c.utf8Size) rest else count

def charsWithin (bytes : Nat) (s : List Char) : Nat := charsWithinFrom 0 bytes s

def takeBytes (bytes : Nat) (s : List Char) : List Char := s.take (charsWithin bytes s)

def dropBytes (bytes : Nat) (s : List Char) : List Char := s.drop (charsWithin bytes s)

def between (start stop : Nat) (s : List Char) : List Char := takeBytes (stop - start) (dropBytes start s)

structure Cursor where
  offset : Nat
  before : Option Char
  rest : List Char

namespace Cursor

def start (s : List Char) : Cursor := ⟨0, none, s⟩

def advance : Nat → Cursor → Cursor
  | 0, cursor => cursor
  | n + 1, cursor =>
    match cursor.rest with
    | [] => cursor
    | c :: rest => advance n ⟨cursor.offset + c.utf8Size, some c, rest⟩

def seek (offset : Nat) (cursor : Cursor) : Cursor :=
  cursor.advance (charsWithin (offset - cursor.offset) cursor.rest)

def upTo (stop : Nat) (cursor : Cursor) : List Char := takeBytes (stop - cursor.offset) cursor.rest

end Cursor

-- A piece of a source text: where it starts, how many bytes it takes, and the source from its start on.
-- Pieces of one source share its characters.
structure Slice where
  start : Nat
  size : Nat
  tail : List Char

namespace Slice

def stop (s : Slice) : Nat := s.start + s.size

def text (s : Slice) : List Char := takeBytes s.size s.tail

def ofText (start : Nat) (s : List Char) : Slice := ⟨start, Text.size s, s⟩

def extendTo (stop : Nat) (s : Slice) : Slice := { s with size := stop - s.start }

end Slice

end SnippetReview.Text
