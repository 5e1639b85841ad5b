import SnippetReview.Proofs.Text.Size
import SnippetReview.Snippet.Segment

/- The tokens of a source: single characters of the code, and whole literals and comments. The segments are
   the tokens with neighbouring code characters joined, so what is shown of tokens holds of them. -/

set_option autoImplicit false

namespace SnippetReview

open Text

inductive Token where
  | code (c : Char)
  | literal (l : Literal) (text : List Char)

-- What the reader knows of the text before a place: the character before it, the code back to the last
-- literal, reversed, and the kind of that literal.
structure Context where
  before : Option Char := none
  code : List Char := []
  last : Option SegmentKind := none

namespace Context

def afterCode (x : Context) (c : Char) : Context := ⟨some c, c :: x.code, x.last⟩

def afterLiteral (kind : SegmentKind) (text : List Char) : Context := ⟨text.getLast?, [], some kind⟩

def literal? (g : Grammar) (x : Context) (s : List Char) : Option Literal := Literal.at? g x.before x.code x.last s

end Context

namespace Token

def text : Token → List Char
  | code c => [c]
  | literal _ text => text

def after (x : Context) : Token → Context
  | code c => x.afterCode c
  | literal l text => .afterLiteral l.kind text

def visible : Token → List Char
  | code c => [c]
  | literal l text => if l.kind = .comment then text.flatMap blanked else text

theorem visible_comment {l : Literal} (comment : l.kind = .comment) (text : List Char) :
    (literal l text).visible = text.flatMap blanked := if_pos comment

theorem visible_kept {l : Literal} (kept : l.kind ≠ .comment) (text : List Char) :
    (literal l text).visible = text := if_neg kept

end Token

def flatten (tokens : List Token) : List Char := tokens.flatMap Token.text

def visibleText (tokens : List Token) : List Char := tokens.flatMap Token.visible

def tokensFrom (g : Grammar) (x : Context) : List Char → List Token
  | [] => []
  | c :: rest =>
    match x.literal? g (c :: rest) with
    | some l =>
      let text := c :: rest.take (l.length - 1)
      .literal l text :: tokensFrom g (.afterLiteral l.kind text) (rest.drop (l.length - 1))
    | none => .code c :: tokensFrom g (x.afterCode c) rest
termination_by s => s.length
decreasing_by all_goals simp +arith

def tokens (g : Grammar) (source : List Char) : List Token := tokensFrom g {} source

theorem tokens_from_nil (g : Grammar) (x : Context) : tokensFrom g x [] = [] := by rw [tokensFrom]

theorem tokens_from_code {g : Grammar} {x : Context} {c : Char} {rest : List Char}
    (none : x.literal? g (c :: rest) = none) :
    tokensFrom g x (c :: rest) = .code c :: tokensFrom g (x.afterCode c) rest := by
  rw [tokensFrom]
  simp only [none]

theorem tokens_from_literal {g : Grammar} {x : Context} {c : Char} {rest : List Char} {l : Literal}
    (some : x.literal? g (c :: rest) = some l) :
    tokensFrom g x (c :: rest) =
      .literal l (c :: rest.take (l.length - 1)) ::
        tokensFrom g (.afterLiteral l.kind (c :: rest.take (l.length - 1))) (rest.drop (l.length - 1)) := by
  rw [tokensFrom]
  simp only [some]

theorem tokens_from_append {g : Grammar} {x : Context} {text rest : List Char} {l : Literal} (nonempty : text ≠ [])
    (length : text.length = l.length) (found : x.literal? g (text ++ rest) = some l) :
    tokensFrom g x (text ++ rest) = .literal l text :: tokensFrom g (.afterLiteral l.kind text) rest := by
  obtain ⟨c, body, rfl⟩ := List.exists_cons_of_ne_nil nonempty
  have more : l.length - 1 = body.length := by
    rw [← length, List.length_cons]
    omega
  rw [List.cons_append] at *
  rw [tokens_from_literal found, more, List.take_left, List.drop_left]

theorem flatten_tokens_from (g : Grammar) (x : Context) (s : List Char) : flatten (tokensFrom g x s) = s := by
  induction x, s using tokensFrom.induct g with
  | case1 x => simp [tokens_from_nil, flatten]
  | case2 x c rest l some text ih =>
    rw [tokens_from_literal some, flatten, List.flatMap_cons, ← flatten, ih]
    simp [Token.text]
  | case3 x c rest none ih =>
    rw [tokens_from_code none, flatten, List.flatMap_cons, ← flatten, ih]
    rfl

namespace Segment

def ofCode (start : Nat) (code : List Char) : List Segment :=
  if code.isEmpty then [] else [⟨.code, start, code.reverse, 0, 0⟩]

def ofLiteral (start : Nat) (l : Literal) (text : List Char) : Segment := ⟨l.kind, start, text, l.opening, l.closing⟩

def ofTokens (start : Nat) (code : List Char) : List Token → List Segment
  | [] => ofCode start code
  | .code c :: rest => ofTokens start (c :: code) rest
  | .literal l text :: rest =>
    let offset := start + size code
    ofCode start code ++ ofLiteral offset l text :: ofTokens (offset + size text) [] rest

theorem flush_eq (start : Nat) (code : List Char) (done : List Segment) :
    flush start code done = (ofCode start code).reverse ++ done := by
  unfold flush ofCode
  split <;> simp

theorem read_from_eq (g : Grammar) (x : Context) (s : List Char) (done : List Segment) (start : Nat)
    (last : done.head?.map (·.kind) = x.last) :
    readFrom g done start x.code (start + size x.code) x.before s =
      done.reverse ++ ofTokens start x.code (tokensFrom g x s) := by
  induction x, s using tokensFrom.induct g generalizing done start with
  | case1 x =>
    rw [readFrom, tokens_from_nil, ofTokens, flush_eq]
    simp
  | case2 x c rest l found text ih =>
    rw [tokens_from_literal found, readFrom, last]
    rw [Context.literal?] at found
    simp only [found]
    have next := ih (ofLiteral (start + size x.code) l text :: flush start x.code done)
      (start + size x.code + size text) rfl
    simp only [Context.afterLiteral, size_nil, Nat.add_zero, ofLiteral, text] at next
    rw [next, flush_eq, ofTokens]
    simp [ofLiteral, Context.afterLiteral]
  | case3 x c rest none ih =>
    rw [tokens_from_code none, readFrom, last]
    rw [Context.literal?] at none
    simp only [none]
    have shift : start + size x.code + c.utf8Size = start + size (x.afterCode c).code := by
      simp only [Context.afterCode, size_cons]
      omega
    rw [ofTokens, shift]
    exact ih done start last

end Segment

theorem segments_eq (g : Grammar) (source : List Char) :
    segments g source = Segment.ofTokens 0 [] (tokens g source) := by
  exact Segment.read_from_eq g {} source [] 0 rfl

end SnippetReview
