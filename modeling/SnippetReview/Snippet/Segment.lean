import SnippetReview.Host.Grammar

set_option autoImplicit false

namespace SnippetReview

open Text

inductive SegmentKind where
  | code
  | quoted
  | regex
  | comment
deriving DecidableEq, Repr

-- A segment: its kind, where it starts, its characters, and how many of them are delimiters. A literal that
-- runs off its line or the source has no closing delimiter.
structure Segment where
  kind : SegmentKind
  start : Nat
  text : List Char
  opening : Nat
  closing : Nat
deriving DecidableEq, Repr

namespace Segment

def stop (s : Segment) : Nat := s.start + Text.size s.text

def content (s : Segment) : List Char := (s.text.drop s.opening).take (s.text.length - s.opening - s.closing)

def isClosed (s : Segment) : Bool := s.closing != 0

end Segment

def isIdentChar (c : Char) : Bool := c.isAlphanum || c == '_' || 128 ≤ c.toNat

-- A literal or comment that starts at a place: its kind, the number of its characters, and how many of them
-- open and close it.
structure Literal where
  kind : SegmentKind
  length : Nat
  opening : Nat
  closing : Nat

namespace Literal

def lineLength (count : Nat) : List Char → Nat
  | [] => count
  | c :: rest => if c == '\n' then count else lineLength (count + 1) rest

-- Characters of a block comment from after its opening, where `depth` comments are open and the next `skip`
-- characters belong to a delimiter.
def blockLength (opening closing : List Char) (nested : Bool) (depth skip count : Nat) : List Char → Nat
  | [] => count
  | c :: rest =>
    match skip with
    | skip + 1 => blockLength opening closing nested depth skip (count + 1) rest
    | 0 =>
      if closing.isPrefixOf (c :: rest) then
        if depth ≤ 1 then count + closing.length
        else blockLength opening closing nested (depth - 1) (closing.length - 1) (count + 1) rest
      else if nested && opening.isPrefixOf (c :: rest) then
        blockLength opening closing nested (depth + 1) (opening.length - 1) (count + 1) rest
      else blockLength opening closing nested depth 0 (count + 1) rest

-- Characters of a quoted literal from after its opening delimiter, and whether it is closed. `escaped` tells
-- that an odd number of backslashes precedes; the next `skip` characters belong to a doubled delimiter.
def quotedLength (style : QuoteStyle) (escaped : Bool) (skip count : Nat) : List Char → Nat × Bool
  | [] => (count, false)
  | c :: rest =>
    match skip with
    | skip + 1 => quotedLength style false skip (count + 1) rest
    | 0 =>
      let closes := style.closing.isPrefixOf (c :: rest)
      if closes && style.escape == .doubled && style.closing.isPrefixOf ((c :: rest).drop style.closing.length) then
        quotedLength style false (2 * style.closing.length - 1) (count + 1) rest
      else if closes && !(style.escape == .backslash && escaped) then
        (count + style.closing.length, true)
      else if !style.multiline && c == '\n' then (count, false)
      else quotedLength style (c == '\\' && !escaped) 0 (count + 1) rest

-- Characters of a regular expression literal from after its opening slash, flags included. It ends at a slash
-- outside a character class, on its line, and is not empty.
def regexLength (inClass skip : Bool) (count : Nat) : List Char → Option Nat
  | [] => none
  | c :: rest =>
    if skip then regexLength inClass false (count + 1) rest
    else if c == '\n' then none
    else if c == '\\' then regexLength inClass true (count + 1) rest
    else if c == '[' then regexLength true false (count + 1) rest
    else if c == ']' then regexLength false false (count + 1) rest
    else if c == '/' && !inClass then
      if count = 0 then none else some (count + 1 + (rest.takeWhile Char.isAlpha).length)
    else regexLength inClass false (count + 1) rest

-- Whether a slash begins a regular expression: after the last character that is not blank of the code before
-- it, or, where that code is blank, after the segment before it.
def regexMayStart (code : List Char) (last : Option SegmentKind) : Bool :=
  match code.find? fun c => !isAsciiBlank c with
  | some c => "(,=:[!&|?\x7b\x7d;+-*%<>~^".toList.contains c
  | none => last != some .quoted && last != some .regex

def QuoteStyle.opensAfter (style : QuoteStyle) (before : Option Char) : Bool :=
  (match style.opening with
  | c :: _ => c == '"' || c == '\'' || c == '`'
  | [] => false)
  || !(before.map isIdentChar).getD false

-- The literal or comment that starts at a place. `code` is the code before it, reversed, back to the segment
-- of kind `last`.
def at? (g : Grammar) (before : Option Char) (code : List Char) (last : Option SegmentKind) (s : List Char) :
    Option Literal :=
  if g.lineComments.any (·.isPrefixOf s) then some ⟨.comment, lineLength 0 s, 0, 0⟩
  else
    match g.blockComments.find? (·.1.isPrefixOf s) with
    | some (opening, closing) =>
      let length := blockLength opening closing g.nestedComments 1 0 opening.length (s.drop opening.length)
      some ⟨.comment, length, opening.length, 0⟩
    | none =>
      match g.quotes.find? fun style => style.opening.isPrefixOf s && QuoteStyle.opensAfter style before with
      | some style =>
        let opening := style.opening.length
        let (length, closed) := quotedLength style false 0 opening (s.drop opening)
        some ⟨.quoted, length, opening, if closed then style.closing.length else 0⟩
      | none =>
        match s with
        | '/' :: rest =>
          if g.regexLiterals && regexMayStart code last then
            (regexLength false false 0 rest).map fun length => ⟨.regex, length + 1, 1, 0⟩
          else none
        | _ => none

end Literal

namespace Segment

def flush (start : Nat) (code : List Char) (done : List Segment) : List Segment :=
  if code.isEmpty then done else ⟨.code, start, code.reverse, 0, 0⟩ :: done

-- Reads segments on from a place. `start` is where the code that precedes the place starts.
def readFrom (g : Grammar) (done : List Segment) (start : Nat) (code : List Char) (offset : Nat)
    (before : Option Char) : List Char → List Segment
  | [] => (flush start code done).reverse
  | c :: rest =>
    match Literal.at? g before code (done.head?.map (·.kind)) (c :: rest) with
    | some literal =>
      let more := literal.length - 1
      let text := c :: rest.take more
      let next := offset + Text.size text
      let segment : Segment := ⟨literal.kind, offset, text, literal.opening, literal.closing⟩
      readFrom g (segment :: flush start code done) next [] next (text.getLast?) (rest.drop more)
    | none => readFrom g done start (c :: code) (offset + c.utf8Size) (some c) rest
termination_by s => s.length
decreasing_by all_goals simp +arith

end Segment

def segments (g : Grammar) (source : List Char) : List Segment := Segment.readFrom g [] 0 [] 0 none source

-- A comment's character blanked out: line feeds stay, others leave a space for each byte.
def blanked (c : Char) : List Char := if c == '\n' then ['\n'] else List.replicate c.utf8Size ' '

def stripComments (g : Grammar) (source : List Char) : List Char :=
  (segments g source).flatMap fun s => if s.kind = .comment then s.text.flatMap blanked else s.text

end SnippetReview
