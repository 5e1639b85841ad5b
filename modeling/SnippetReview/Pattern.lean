import SnippetReview.Text.Blank
import SnippetReview.Text.Letter

/- Patterns that are searched for in a text. A pattern gives, for a place in the text, the places at which it
   can end there, the preferred one first: a repetition prefers more, an option prefers to be taken, an
   alternative prefers its left side. A match is the preferred end at the leftmost place that has one. -/

set_option autoImplicit false

namespace SnippetReview

open Text

inductive Pattern where
  | exactly (chars : List Char)
  | one (accepts : Char → Bool)
  | many (accepts : Char → Bool)
  | cat (first second : Pattern)
  | either (left right : Pattern)
  | optional (inner : Pattern)
  | group (inner : Pattern)
  | wordEdge
  | lineStart
  | textStart
  | textEnd

namespace Pattern

instance : Append Pattern := ⟨cat⟩

def lit (s : String) : Pattern := exactly s.toList

def many1 (accepts : Char → Bool) : Pattern := one accepts ++ many accepts

def gap : Pattern := many isBlank

def space : Pattern := many1 isBlank

def word : Pattern := many1 isWordChar

def oneOf : List String → Pattern
  | [] => one (fun _ => false)
  | [w] => lit w
  | w :: rest => either (lit w) (oneOf rest)

-- A place that a match has reached, and where the group remembered on the way starts and stops.
structure Place where
  cursor : Cursor
  remembered : Option (Cursor × Nat)

def run (accepts : Char → Bool) (remembered : Option (Cursor × Nat)) (passed : List Place) (offset : Nat) :
    Option Char → List Char → List Place
  | before, [] => ⟨⟨offset, before, []⟩, remembered⟩ :: passed
  | before, c :: rest =>
    let passed := ⟨⟨offset, before, c :: rest⟩, remembered⟩ :: passed
    if accepts c then run accepts remembered passed (offset + c.utf8Size) (some c) rest else passed

def ends : Pattern → Place → List Place
  | exactly chars, place =>
    if chars.isPrefixOf place.cursor.rest then
      [{ place with cursor := place.cursor.advance chars.length }]
    else []
  | one accepts, place =>
    match place.cursor.rest with
    | c :: _ => if accepts c then [{ place with cursor := place.cursor.advance 1 }] else []
    | [] => []
  | many accepts, place =>
    run accepts place.remembered [] place.cursor.offset place.cursor.before place.cursor.rest
  | cat first second, place => (first.ends place).flatMap second.ends
  | either left right, place => left.ends place ++ right.ends place
  | optional inner, place => inner.ends place ++ [place]
  | group inner, place =>
    (inner.ends place).map fun reached =>
      { reached with remembered := some (place.cursor, reached.cursor.offset) }
  | wordEdge, place =>
    let left := (place.cursor.before.map isWordChar).getD false
    let right := (place.cursor.rest.head?.map isWordChar).getD false
    if left != right then [place] else []
  | lineStart, place =>
    if place.cursor.before.all (· == '\n') then [place] else []
  | textStart, place => if place.cursor.offset = 0 then [place] else []
  | textEnd, place => if place.cursor.rest.isEmpty then [place] else []

structure Match where
  start : Cursor
  stop : Cursor
  group : Option (List Char)

def Match.text (m : Match) : List Char := m.start.upTo m.stop.offset

def matchAt (p : Pattern) (cursor : Cursor) : Option Match :=
  (p.ends ⟨cursor, none⟩).head?.map fun place =>
    ⟨cursor, place.cursor, place.remembered.map fun (start, stop) => start.upTo stop⟩

def findFrom (p : Pattern) (offset : Nat) : Option Char → List Char → Option Match
  | before, [] => p.matchAt ⟨offset, before, []⟩
  | before, c :: rest =>
    match p.matchAt ⟨offset, before, c :: rest⟩ with
    | some found => some found
    | none => findFrom p (offset + c.utf8Size) (some c) rest

def find? (p : Pattern) (s : List Char) : Option Match := p.findFrom 0 none s

def matchesIn (p : Pattern) (s : List Char) : Bool := (p.find? s).isSome

-- Goes through a text and collects its matches. A match hides those that start inside it: the next one starts
-- at or after `resume`.
def collect (p : Pattern) (found : List Match) (resume offset : Nat) : Option Char → List Char → List Match
  | before, [] =>
    match (if resume ≤ offset then p.matchAt ⟨offset, before, []⟩ else none) with
    | some m => (m :: found).reverse
    | none => found.reverse
  | before, c :: rest =>
    match (if resume ≤ offset then p.matchAt ⟨offset, before, c :: rest⟩ else none) with
    | some m => collect p (m :: found) m.stop.offset (offset + c.utf8Size) (some c) rest
    | none => collect p found resume (offset + c.utf8Size) (some c) rest

def all (p : Pattern) (s : List Char) : List Match := p.collect [] 0 0 none s

end Pattern

end SnippetReview
