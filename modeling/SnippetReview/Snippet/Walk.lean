import SnippetReview.Snippet.Segment

set_option autoImplicit false

namespace SnippetReview

open Text

-- What is open at a place: brackets, block words, and angle brackets inside the innermost bracket.
-- `savedAngles` holds the angle brackets that were open outside each open bracket.
structure Nesting where
  brackets : Nat := 0
  keywords : Nat := 0
  angles : Nat := 0
  savedAngles : List Nat := []
deriving DecidableEq, Repr

namespace Nesting

def depth (n : Nesting) : Nat := n.brackets + n.keywords + n.angles

def openBracket (n : Nesting) : Nesting :=
  { n with brackets := n.brackets + 1, savedAngles := n.angles :: n.savedAngles, angles := 0 }

def closeBracket (n : Nesting) : Nesting :=
  { n with brackets := n.brackets - 1, savedAngles := n.savedAngles.tail, angles := n.savedAngles.headD 0 }

end Nesting

def isOpening (c : Char) : Bool := c == '(' || c == '[' || c == '\x7b'

def isClosing (c : Char) : Bool := c == ')' || c == ']' || c == '\x7d'

def opensGeneric (before after : Option Char) : Bool :=
  (before.map isIdentChar).getD false
    && (after.map fun c => c.isAlpha || c == '?' || c == '>' || c == '_' || c == '[' || c == '&').getD false

def Nesting.after (g : Grammar) (n : Nesting) (before : Option Char) (c : Char) (rest : List Char) : Nesting :=
  if isOpening c then n.openBracket
  else if isClosing c then n.closeBracket
  else if c == '<' && g.generics && opensGeneric before rest.head? then { n with angles := n.angles + 1 }
  else if c == '>' && g.generics && 0 < n.angles && before != some '-' && before != some '=' then
    { n with angles := n.angles - 1 }
  else if c == ';' then { n with angles := 0 }
  else n

inductive BlockEffect where
  | opens
  | closes
  | nothing
deriving DecidableEq, Repr

-- What a word does, from the character before it, the text after it, and whether code precedes it on its
-- line. A sign before or after it can make it a name.
def BlockWords.effect (words : BlockWords) (before : Option Char) (word after : List Char) (lineHasCode : Bool) :
    BlockEffect :=
  let named :=
    (before.map fun c => c == '.' || c == ':' || c == '@' || c == '$').getD false
    || match after with
      | ':' :: next => next.head? != some ':'
      | c :: _ => c == '?' || c == '!'
      | [] => false
  if named then .nothing
  else if words.openers.contains word then .opens
  else if words.lineOpeners.contains word && !lineHasCode then .opens
  else if word == words.closer then .closes
  else .nothing

def Nesting.afterWord (n : Nesting) : BlockEffect → Nesting
  | .opens => { n with keywords := n.keywords + 1 }
  | .closes => { n with keywords := n.keywords - 1 }
  | .nothing => n

-- A character of the code: where it stands, the text around it, the depth before it, the last code character
-- before it that is no blank, where a literal counts with its last character, and the word that begins with
-- it, if words matter.
structure Visit where
  offset : Nat
  before : Option Char
  char : Char
  rest : List Char
  depth : Nat
  previous : Option Char
  word : Option (List Char)

structure Walk where
  cursor : Cursor
  nesting : Nesting := {}
  previous : Option Char := none
  lineHasCode : Bool := false
  visits : List Visit := []

namespace Walk

def wordAt (g : Grammar) (before : Option Char) (c : Char) (rest : List Char) : Option (List Char) :=
  if g.blockWords.isSome && (c.isAlpha || c == '_') && !(before.map isIdentChar).getD false then
    some (c :: rest.takeWhile isIdentChar)
  else none

def step (g : Grammar) (w : Walk) : Walk :=
  match w.cursor.rest with
  | [] => w
  | c :: rest =>
    let before := w.cursor.before
    let word := wordAt g before c rest
    let nesting :=
      match word, g.blockWords with
      | some word, some words =>
        w.nesting.afterWord (words.effect before word (rest.drop (word.length - 1)) w.lineHasCode)
      | _, _ => w.nesting.after g before c rest
    { cursor := ⟨w.cursor.offset + c.utf8Size, some c, rest⟩
      nesting
      previous := if isAsciiBlank c then w.previous else some c
      lineHasCode := if c == '\n' then false else w.lineHasCode || !isAsciiBlank c
      visits := ⟨w.cursor.offset, before, c, rest, w.nesting.depth, w.previous, word⟩ :: w.visits }

def steps (g : Grammar) : Nat → Walk → Walk
  | 0, w => w
  | n + 1, w => steps g n (w.step g)

def passOver (g : Grammar) (w : Walk) (s : Segment) : Walk :=
  let length := s.text.length
  match s.kind with
  | .code => w.steps g length
  | .quoted | .regex =>
    let cursor := w.cursor.advance length
    { w with cursor, previous := cursor.before, lineHasCode := true }
  | .comment =>
    { w with cursor := w.cursor.advance length, lineHasCode := w.lineHasCode && !s.text.contains '\n' }

end Walk

def Visit.goesOn (last v : Visit) : Bool :=
  v.word.isNone && isIdentChar v.char && isIdentChar last.char && last.offset + last.char.utf8Size == v.offset

-- The visit after another one. A character that goes on a word has the depth before the word.
def Visit.held (last : Option Visit) (v : Visit) : Visit :=
  match last with
  | some last => if last.goesOn v then { v with depth := last.depth } else v
  | none => v

-- Gives the characters of a word the depth before the word. The visits done stand in reverse.
def heldFrom (done : List Visit) : List Visit → List Visit
  | [] => done.reverse
  | v :: rest => heldFrom (v.held done.head? :: done) rest

def visits (g : Grammar) (text : List Char) : List Visit :=
  let seen := ((segments g text).foldl (Walk.passOver g) { cursor := Cursor.start text }).visits.reverse
  if g.blockWords.isSome then heldFrom [] seen else seen

def findOutside (g : Grammar) (text : List Char) (accepts : Visit → Bool) : Option Visit :=
  (visits g text).find? fun v => v.depth == 0 && accepts v

-- The visit of the bracket that closes one opened just before the text, unless a different closing bracket or
-- the end of the text comes first.
def matchingClose (g : Grammar) (text : List Char) (closing : Char) : Option Visit :=
  (findOutside g text fun v => isClosing v.char).filter fun v => v.char == closing

end SnippetReview
