import SnippetReview.Proofs.Lexing.Sealing
import SnippetReview.Proofs.Snippet.Levels

set_option autoImplicit false

namespace SnippetReview

open Text

-- A language without block words, type arguments and regular expressions, whose delimiters consist of signs
-- that break nothing off.
structure Grammar.Contextless (g : Grammar) : Prop where
  blind : g.Shortsighted
  slashless : g.regexLiterals = false
  plain : ∀ style ∈ g.quotes, Literal.QuoteStyle.plain style = true
  closes : ∀ style ∈ g.quotes, style.closing ≠ []
  joined : ∀ marker ∈ g.delimiters, ∀ c ∈ marker, isBreak c = false

def Token.IsClosed : Token → Prop
  | .code _ => True
  | .literal l _ => l.kind = .quoted ∧ l.closing ≠ 0

section

variable {g : Grammar} {c : Char} {rest later : List Char}

theorem apart_of_follows (contextless : g.Contextless) (follows : Follows false later) {marker : List Char}
    (known : marker ∈ g.delimiters) : ∀ d ∈ later.head?, d ∉ marker := by
  intro d first member
  have breaks := follows.resolve_left Bool.false_ne_true d first
  rw [contextless.joined marker known d member] at breaks
  contradiction

theorem ReadOn.of_closed (slashless : g.regexLiterals = false) {alone whole : List Token} (reads : ReadOn g later alone whole)
    (closed : ∀ t ∈ alone, t.IsClosed) : ∃ y, whole = alone ++ tokensFrom g y later := by
  induction reads with
  | behind y => exact ⟨y, rfl⟩
  | cons t _ ih =>
    obtain ⟨y, same⟩ := ih fun u member => closed u (List.mem_cons_of_mem t member)
    exact ⟨y, congrArg (t :: ·) same⟩
  | longer _ _ unclosed => exact absurd unclosed (closed _ List.mem_cons_self).2
  | regex _ enabled =>
    rw [slashless] at enabled
    contradiction

theorem tokens_apart (legible : g.Legible) (contextless : g.Contextless) (follows : Follows false later) (x y : Context)
    (s : List Char) (closed : ∀ t ∈ tokensFrom g x s, t.IsClosed) :
    tokensFrom g y (s ++ later) = tokensFrom g x s ++ tokensFrom g ((tokensFrom g x s).foldl Token.after y) later := by
  have slashes : ∀ {x y : Context}, SameSlashes g x y := by
    intro x y enabled
    rw [contextless.slashless] at enabled
    contradiction
  have openings : SameOpenings g y x s := by
    intro style member _
    have plain := contextless.plain style member
    rw [Literal.QuoteStyle.opens_after_plain plain, Literal.QuoteStyle.opens_after_plain plain]
  have alone : tokensFrom g y s = tokensFrom g x s := tokens_from_of_same openings slashes
  have unbridged : g.Unbridged later s := unbridged_of_apart (fun _ known => apart_of_follows contextless follows known) s
  have slashless : g.regexLiterals = true → '/' ∈ s → ∀ d ∈ later.head?, d.isAlpha = false := by
    intro enabled
    rw [contextless.slashless] at enabled
    contradiction
  have reads := read_on legible unbridged slashless y
  rw [alone] at reads
  obtain ⟨z, whole⟩ := reads.of_closed contextless.slashless closed
  have rest := tokens_from_split whole
  rw [flatten_tokens_from] at rest
  rw [whole, rest]

theorem break_of_blank {c : Char} (blank : isAsciiBlank c = true) : isBreak c = true := by
  unfold isAsciiBlank at blank
  simp only [Bool.or_eq_true, beq_iff_eq] at blank
  rcases blank with (((rfl | rfl) | rfl) | rfl) | rfl <;> decide

theorem last_of_closed (contextless : g.Contextless) {x : Context} {s : List Char} {l : Literal} {text : List Char}
    (member : Token.literal l text ∈ tokensFrom g x s) (closed : (Token.literal l text).IsClosed) :
    ∃ c, text.getLast? = some c ∧ isBreak c = false := by
  obtain ⟨y, c, rest, found, rfl⟩ := literal_of_mem_tokens member
  obtain ⟨style, known, content, parts, -⟩ := closed_parts found closed.1 closed.2
  obtain ⟨init, d, last⟩ := List.eq_nil_or_concat style.closing |>.resolve_left (contextless.closes style known)
  have ends : style.closing ∈ g.delimiters := List.mem_append_right _ (List.mem_map_of_mem known)
  refine ⟨d, ?_, contextless.joined style.closing ends d (by rw [last]; simp)⟩
  rw [parts, last, List.concat_eq_append, ← List.append_assoc, List.getLast?_concat]

end

-- Tokens whose brackets match from a level on down to none. Outside of all brackets the code has accepted
-- characters alone, and every literal is closed.
def enclosed (p : Char → Bool) : Nat → List Token → Bool
  | level, [] => level == 0
  | level, .literal l _ :: rest => l.kind == .quoted && l.closing != 0 && enclosed p level rest
  | level, .code c :: rest =>
    if isClosing c then 0 < level && enclosed p (level - 1) rest
    else (0 < level || p c) && enclosed p (if isOpening c then level + 1 else level) rest

def Grammar.isExpression (g : Grammar) (p : Char → Bool) (s : List Char) : Bool := enclosed p 0 (tokens g s)

def Nesting.raised (n : Nesting) (level : Nat) : Nesting :=
  { n with brackets := n.brackets + level, savedAngles := List.replicate level 0 ++ n.savedAngles }

section

variable {g : Grammar} {p : Char → Bool} {level : Nat} {tokens : List Token}

theorem closed_of_enclosed (holds : enclosed p level tokens = true) : ∀ t ∈ tokens, t.IsClosed := by
  induction tokens generalizing level with
  | nil => simp
  | cons t rest ih =>
    cases t with
    | literal l text =>
      simp only [enclosed, Bool.and_eq_true, beq_iff_eq, bne_iff_ne] at holds
      exact List.forall_mem_cons.mpr ⟨holds.1, ih holds.2⟩
    | code c =>
      rw [enclosed] at holds
      refine List.forall_mem_cons.mpr ⟨trivial, ?_⟩
      split at holds
      · exact ih (Bool.and_eq_true_iff.mp holds).2
      · exact ih (Bool.and_eq_true_iff.mp holds).2

theorem accepted_of_last {c : Char} (holds : enclosed p level (tokens ++ [.code c]) = true) :
    isClosing c = true ∨ p c = true := by
  induction tokens generalizing level with
  | nil =>
    by_cases closes : isClosing c = true
    · exact .inl closes
    · right
      simp only [List.nil_append, enclosed, closes, Bool.false_eq_true, if_false] at holds
      split at holds <;> simp at holds
      simpa [holds.2] using holds.1
  | cons t rest ih =>
    cases t with
    | literal l text =>
      rw [List.cons_append, enclosed, Bool.and_eq_true] at holds
      exact ih holds.2
    | code d =>
      rw [List.cons_append, enclosed] at holds
      split at holds
      · exact ih (Bool.and_eq_true_iff.mp holds).2
      · exact ih (Bool.and_eq_true_iff.mp holds).2

namespace Nesting

variable {n : Nesting}

theorem raised_zero : n.raised 0 = n := rfl

theorem depth_raised (angles : n.angles = 0) : (n.raised level).depth = n.depth + level := by
  simp only [raised, depth, angles]
  omega

theorem open_raised (angles : n.angles = 0) : (n.raised level).openBracket = n.raised (level + 1) := by
  simp [raised, openBracket, angles, List.replicate_succ, Nat.add_assoc]

theorem close_raised (angles : n.angles = 0) : (n.raised (level + 1)).closeBracket = n.raised level := by
  simp [raised, closeBracket, angles, List.replicate_succ, ← Nat.add_assoc]

theorem pass_plain (blind : g.Shortsighted) {v : Visit} (angles : n.angles = 0) (opens : isOpening v.char = false)
    (closes : isClosing v.char = false) : n.pass g v = n := by
  rw [pass_other g n opens closes]
  simp [Visit.anglesAfter, Visit.opensAngle, Visit.closesAngle, blind.2, angles]
  rw [← angles]

theorem pass_enclosed (blind : g.Shortsighted) (angles : n.angles = 0) {c : Char}
    (holds : enclosed p level (.code c :: tokens) = true) : (0 < level ∨ p c = true) ∧
      ∃ next, enclosed p next tokens = true ∧ ∀ v : Visit, v.char = c → (n.raised level).pass g v = n.raised next := by
  rw [enclosed] at holds
  by_cases closes : isClosing c = true
  · rw [if_pos closes, Bool.and_eq_true, decide_eq_true_eq] at holds
    obtain ⟨deeper, inner⟩ := holds
    refine ⟨.inl deeper, level - 1, inner, ?_⟩
    rintro v rfl
    rw [pass_closing closes, ← Nat.sub_add_cancel deeper, close_raised angles, Nat.add_sub_cancel]
  · rw [if_neg closes, Bool.and_eq_true, Bool.or_eq_true, decide_eq_true_eq] at holds
    obtain ⟨accepted, inner⟩ := holds
    refine ⟨accepted, _, inner, ?_⟩
    rintro v rfl
    cases opens : isOpening v.char with
    | true => rw [pass_opening opens, open_raised angles, if_pos rfl]
    | false =>
      have same : (n.raised level).angles = 0 := angles
      rw [pass_plain blind same opens (Bool.eq_false_iff.mpr closes), if_neg Bool.false_ne_true]

end Nesting

namespace Walk

variable {w : Walk} {later : List Char}

theorem pass_token_spec {t : Token} (stands : w.cursor.rest = t.text ++ later)
    (closed : ∀ l text, t = .literal l text → l.kind = .quoted ∧ ∃ c, text.getLast? = some c ∧ isBreak c = false) :
    (w.passToken g t).cursor = ⟨w.cursor.offset + size t.text, t.text.getLast?.or w.cursor.before, later⟩ ∧
      (w.passToken g t).previous = (lastInk t.text).or w.previous := by
  cases t with
  | code c =>
    refine ⟨?_, ?_⟩
    · rw [show (Token.code c).text = [c] from rfl, size_singleton]
      exact cursor_step stands
    · rw [show (Token.code c).text = [c] from rfl, last_ink_singleton, passToken, previous_step stands]
      cases isAsciiBlank c <;> rfl
  | literal l text =>
    obtain ⟨kind, c, last, joined⟩ := closed l text rfl
    have moved := cursor_literal (g := g) (l := l) (by rw [kind]; decide) (show w.cursor.rest = text ++ later from stands)
    have ink : isAsciiBlank c = false := by
      cases blank : isAsciiBlank c with
      | false => rfl
      | true => exact absurd (break_of_blank blank) (by simp [joined])
    -- Behind a literal the character seen last is the one before the cursor.
    have seen : (w.passToken g (.literal l text)).previous = (w.passToken g (.literal l text)).cursor.before := by
      unfold passToken passOver
      simp only [Segment.ofLiteral, kind]
    refine ⟨moved, ?_⟩
    rw [seen, moved, show (Token.literal l text).text = text from rfl, last_ink_of_last last ink, last]
    rfl

theorem across_spec (stands : w.cursor.rest = flatten tokens ++ later)
    (closed : ∀ l text, Token.literal l text ∈ tokens → l.kind = .quoted ∧ ∃ c, text.getLast? = some c ∧ isBreak c = false) :
    (w.across g tokens).cursor =
        ⟨w.cursor.offset + size (flatten tokens), (flatten tokens).getLast?.or w.cursor.before, later⟩ ∧
      (w.across g tokens).previous = (lastInk (flatten tokens)).or w.previous := by
  induction tokens generalizing w with
  | nil =>
    refine ⟨?_, rfl⟩
    rw [across_nil]
    exact congrArg (fun rest => (⟨w.cursor.offset, w.cursor.before, rest⟩ : Cursor)) stands
  | cons t rest ih =>
    rw [flatten_cons, List.append_assoc] at stands
    obtain ⟨cursor, previous⟩ := pass_token_spec (g := g) stands fun l text same => closed l text (same ▸ List.mem_cons_self)
    have next := ih (w := w.passToken g t) (by rw [cursor]) fun l text member =>
      closed l text (List.mem_cons_of_mem t member)
    rw [across_cons, next.1, next.2, cursor, previous, flatten_cons]
    refine ⟨?_, ?_⟩
    · rw [size_append, Nat.add_assoc, List.getLast?_append, Option.or_assoc]
    · rw [last_ink_append, Option.or_assoc]

theorem across_enclosed (blind : g.Shortsighted) {n : Nesting} (angles : n.angles = 0)
    (stands : w.cursor.rest = flatten tokens ++ later) (here : w.nesting = n.raised level)
    (holds : enclosed p level tokens = true) :
    (w.across g tokens).nesting = n ∧
      ∀ v ∈ w.seen g tokens, n.depth < v.depth ∨ (v.depth = n.depth ∧ p v.char = true) := by
  induction tokens generalizing w level with
  | nil =>
    rw [enclosed, beq_iff_eq] at holds
    rw [holds] at here
    exact ⟨here, by simp [seen_nil]⟩
  | cons t rest ih =>
    rw [flatten_cons, List.append_assoc] at stands
    cases t with
    | literal l text =>
      simp only [enclosed, Bool.and_eq_true, beq_iff_eq] at holds
      have kind : l.kind ≠ .code := by
        rw [holds.1.1]
        decide
      rw [across_cons, seen_literal g w l text rest kind]
      refine ih (w := w.passToken g (.literal l text)) ?_ ?_ holds.2
      · rw [cursor_literal kind (show w.cursor.rest = text ++ _ from stands)]
      · rw [nesting_literal kind, here]
    | code c =>
      have stands : w.cursor.rest = c :: (flatten rest ++ later) := stands
      have further : (w.step g).cursor.rest = flatten rest ++ later := by rw [cursor_step stands]
      have depth : (w.visitAt g c (flatten rest ++ later)).depth = n.depth + level := by
        rw [visitAt, here, Nesting.depth_raised angles]
      obtain ⟨accepted, next, inner, passes⟩ := Nesting.pass_enclosed blind angles holds
      have here' : (w.step g).nesting = n.raised next := by rw [nesting_step blind.1 stands, here, passes _ rfl]
      obtain ⟨nesting, seen⟩ := ih further here' inner
      rw [across_cons, seen_code stands, passToken]
      refine ⟨nesting, List.forall_mem_cons.mpr ⟨?_, seen⟩⟩
      by_cases outside : level = 0
      · have sign := accepted.resolve_left (by omega)
        exact .inr ⟨by omega, sign⟩
      · exact .inl (by omega)

end Walk

theorem passes_expression (legible : g.Legible) (contextless : g.Contextless) {s : List Char}
    (holds : g.isExpression p s = true) : Passes g p false s := by
  have closed := closed_of_enclosed holds
  have ends : ∀ l text, Token.literal l text ∈ SnippetReview.tokens g s →
      l.kind = .quoted ∧ ∃ c, text.getLast? = some c ∧ isBreak c = false := fun l text member =>
    ⟨(closed _ member).1, last_of_closed contextless member (closed _ member)⟩
  have text : flatten (SnippetReview.tokens g s) = s := flatten_tokens_from g {} s
  refine ⟨SnippetReview.tokens g s, text, fun l text member => (closed _ member).1, ?_, ?_⟩
  · exact fun x later follows => tokens_apart legible contextless follows {} x s closed
  · intro w later follows stands angles
    have stands' : w.cursor.rest = flatten (SnippetReview.tokens g s) ++ later := by rw [text, stands]
    obtain ⟨cursor, previous⟩ := Walk.across_spec stands' ends
    obtain ⟨nesting, seen⟩ := Walk.across_enclosed contextless.blind angles stands' (Nesting.raised_zero (n := w.nesting)).symm holds
    rw [text] at cursor previous
    exact ⟨cursor, nesting, previous, seen⟩

theorem last_of_expression (contextless : g.Contextless) {s : List Char} (holds : g.isExpression p s = true) {c : Char}
    (last : s.getLast? = some c) : isClosing c = true ∨ isBreak c = false ∨ p c = true := by
  have text : flatten (SnippetReview.tokens g s) = s := flatten_tokens_from g {} s
  have closed := closed_of_enclosed holds
  rcases List.eq_nil_or_concat (SnippetReview.tokens g s) with none | ⟨init, t, shape⟩
  · rw [← text, none] at last
    contradiction
  · rw [List.concat_eq_append] at shape
    have member : t ∈ SnippetReview.tokens g s := by simp [shape]
    rw [← text, shape, flatten_append] at last
    cases t with
    | code d =>
      rw [show flatten [.code d] = [d] from rfl, List.getLast?_concat, Option.some.injEq] at last
      rw [Grammar.isExpression, shape] at holds
      rcases accepted_of_last holds with closes | accepted
      · exact .inl (last ▸ closes)
      · exact .inr (.inr (last ▸ accepted))
    | literal l body =>
      obtain ⟨d, ends, joined⟩ := last_of_closed contextless member (closed _ member)
      rw [show flatten [.literal l body] = body ++ [] from rfl, List.append_nil, List.getLast?_append, ends,
        Option.some_or, Option.some.injEq] at last
      exact .inr (.inl (last ▸ joined))

end

end SnippetReview
