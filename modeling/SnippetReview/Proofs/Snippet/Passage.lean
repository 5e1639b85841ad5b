import SnippetReview.Proofs.Lexing.Literal
import SnippetReview.Proofs.Lexing.Partition
import SnippetReview.Proofs.Snippet.Walking

/- Passages: pieces of text that are read the same way wherever they stand, and that a walk goes over without
   a change of its nesting. Words, quoted strings and bracketed passages are passages. -/

set_option autoImplicit false

namespace SnippetReview

open Text

def isBreak (c : Char) : Bool := !isIdentChar c && c != '"' && c != '\'' && c != '#'

def isWordish (c : Char) : Bool := c.isAlphanum || c == '_'

def Follows (free : Bool) (later : List Char) : Prop := free = true ∨ ∀ c ∈ later.head?, isBreak c = true

def lastInk (s : List Char) : Option Char := s.reverse.find? fun c => !isAsciiBlank c

theorem last_ink_append (s t : List Char) : lastInk (s ++ t) = (lastInk t).or (lastInk s) := by
  rw [lastInk, List.reverse_append, List.find?_append]
  rfl

theorem last_ink_singleton (c : Char) : lastInk [c] = if isAsciiBlank c then none else some c := by
  cases blank : isAsciiBlank c <;> simp [lastInk, blank]

theorem last_ink_of_last {s : List Char} {c : Char} (last : s.getLast? = some c) (ink : isAsciiBlank c = false) :
    lastInk s = some c := by
  obtain ⟨front, rfl⟩ := List.getLast?_eq_some_iff.mp last
  rw [last_ink_append, last_ink_singleton, ink]
  rfl

structure Moves (g : Grammar) (base : Char → Bool) (s later : List Char) (tokens : List Token) (w : Walk) : Prop where
  cursor : (w.across g tokens).cursor = ⟨w.cursor.offset + size s, s.getLast?.or w.cursor.before, later⟩
  nesting : (w.across g tokens).nesting = w.nesting
  previous : (w.across g tokens).previous = (lastInk s).or w.previous
  seen : ∀ v ∈ w.seen g tokens, w.nesting.depth < v.depth ∨ (v.depth = w.nesting.depth ∧ base v.char = true)

structure Reads (g : Grammar) (base : Char → Bool) (free : Bool) (s : List Char) (tokens : List Token) : Prop where
  text : flatten tokens = s
  quoted : ∀ l text, Token.literal l text ∈ tokens → l.kind = .quoted
  split : ∀ (x : Context) (later : List Char), Follows free later →
    tokensFrom g x (s ++ later) = tokens ++ tokensFrom g (tokens.foldl Token.after x) later
  moves : ∀ (w : Walk) (later : List Char), Follows free later → w.cursor.rest = s ++ later → w.nesting.angles = 0 →
    Moves g base s later tokens w

def Passes (g : Grammar) (base : Char → Bool) (free : Bool) (s : List Char) : Prop := ∃ tokens, Reads g base free s tokens

section

variable {g : Grammar} {base : Char → Bool}

theorem Moves.append {s t later : List Char} {first rest : List Token} {w : Walk}
    (before : Moves g base s (t ++ later) first w) (after : Moves g base t later rest (w.across g first)) :
    Moves g base (s ++ t) later (first ++ rest) w := by
  constructor
  · rw [Walk.across_append, after.cursor, before.cursor, size_append, Nat.add_assoc, List.getLast?_append, Option.or_assoc]
  · rw [Walk.across_append, after.nesting, before.nesting]
  · rw [Walk.across_append, after.previous, before.previous, last_ink_append, Option.or_assoc]
  · intro v member
    rw [Walk.seen_append, List.mem_append] at member
    rcases member with earlier | later
    · exact before.seen v earlier
    · have level := after.seen v later
      rwa [before.nesting] at level

theorem passes_nil (g : Grammar) (base : Char → Bool) (free : Bool) : Passes g base free [] := by
  refine ⟨[], rfl, by simp, fun x later _ => rfl, fun w later _ stands _ => ⟨?_, rfl, rfl, by simp [Walk.seen_nil]⟩⟩
  rw [Walk.across_nil]
  exact congrArg (fun rest => (⟨w.cursor.offset, w.cursor.before, rest⟩ : Cursor)) stands

theorem Passes.append {s t : List Char} {free free' : Bool} (first : Passes g base free s) (second : Passes g base free' t)
    (joins : free = true ∨ ∃ c ∈ t.head?, isBreak c = true) : Passes g base free' (s ++ t) := by
  obtain ⟨firstTokens, first⟩ := first
  obtain ⟨secondTokens, second⟩ := second
  have joined : ∀ later, Follows free (t ++ later) := by
    intro later
    rcases joins with any | ⟨c, head, breaks⟩
    · exact .inl any
    · right
      cases t with
      | nil => contradiction
      | cons d rest =>
        intro e same
        rw [List.cons_append, List.head?_cons, Option.mem_some_iff] at same
        rw [List.head?_cons, Option.mem_some_iff] at head
        rw [← same, head]
        exact breaks
  refine ⟨firstTokens ++ secondTokens, ?text, ?quoted, ?split, ?moves⟩
  case text => rw [flatten, List.flatMap_append, ← flatten, ← flatten, first.text, second.text]
  case quoted =>
    intro l text member
    exact (List.mem_append.mp member).elim (first.quoted l text) (second.quoted l text)
  case split =>
    intro x later follows
    rw [List.append_assoc, first.split x _ (joined later), second.split _ later follows, List.foldl_append,
      List.append_assoc]
  case moves =>
    intro w later follows stands angles
    rw [List.append_assoc] at stands
    have before := first.moves w (t ++ later) (joined later) stands angles
    refine before.append (second.moves _ later follows ?_ ?_)
    · rw [before.cursor]
    · rw [before.nesting]
      exact angles

theorem Passes.weaken {base' : Char → Bool} {s : List Char} {free : Bool} (passes : Passes g base free s)
    (weaker : ∀ c, base c = true → base' c = true) : Passes g base' free s := by
  obtain ⟨tokens, reads⟩ := passes
  refine ⟨tokens, reads.text, reads.quoted, reads.split, fun w later follows stands angles => ?_⟩
  have moves := reads.moves w later follows stands angles
  exact ⟨moves.cursor, moves.nesting, moves.previous, fun v member =>
    (moves.seen v member).imp_right fun level => ⟨level.1, weaker v.char level.2⟩⟩

theorem Passes.restrict {s : List Char} (passes : Passes g base true s) (free : Bool) : Passes g base free s := by
  obtain ⟨tokens, reads⟩ := passes
  exact ⟨tokens, reads.text, reads.quoted, fun x later _ => reads.split x later (.inl rfl),
    fun w later _ => reads.moves w later (.inl rfl)⟩

-- A passage has no comments.
theorem strip_of_passes {s : List Char} {free : Bool} (passes : Passes g base free s) :
    stripComments g s = s := by
  obtain ⟨tokens, reads⟩ := passes
  have read := reads.split {} [] (.inr (by simp))
  rw [List.append_nil, tokens_from_nil, List.append_nil] at read
  have kept : ∀ t ∈ tokens, t.visible = t.text := by
    intro t member
    cases t with
    | code c => rfl
    | literal l text => exact Token.visible_kept (by rw [reads.quoted l text member]; decide) text
  rw [strip_comments_eq, SnippetReview.tokens, read, visibleText, List.flatMap_def, List.map_congr_left kept, ← List.flatMap_def]
  exact reads.text

theorem tokens_from_code_all {cs later : List Char}
    (silent : ∀ c rest, ∀ done, cs = done ++ c :: rest → ∀ x : Context, x.literal? g (c :: (rest ++ later)) = none)
    (x : Context) : tokensFrom g x (cs ++ later) =
      cs.map .code ++ tokensFrom g ((cs.map Token.code).foldl Token.after x) later := by
  induction cs generalizing x with
  | nil => rfl
  | cons c rest ih =>
    rw [List.cons_append, tokens_from_code (silent c rest [] rfl x)]
    rw [ih (fun d more done split => silent d more (c :: done) (by rw [split, List.cons_append]))]
    rfl

theorem fold_after_code (cs : List Char) (x : Context) :
    (cs.map Token.code).foldl Token.after x = ⟨cs.getLast?.or x.before, cs.reverse ++ x.code, x.last⟩ := by
  induction cs generalizing x with
  | nil => rfl
  | cons c cs ih =>
    rw [List.map_cons, List.foldl_cons, ih]
    simp only [Token.after, Context.afterCode, List.reverse_cons, List.append_assoc, List.singleton_append, List.getLast?_cons]
    cases cs.getLast? <;> rfl

theorem flatten_map_code (cs : List Char) : flatten (cs.map .code) = cs := by
  induction cs with
  | nil => rfl
  | cons c rest ih =>
    rw [List.map_cons, flatten, List.flatMap_cons, ← flatten, ih]
    rfl

theorem moves_code {cs later : List Char} (bases : ∀ c ∈ cs, base c = true) (done : List Char)
    (level : ∀ passed c rest, cs = passed ++ c :: rest → ∀ u : Walk, u.cursor.rest = c :: (rest ++ later) →
      u.nesting.angles = 0 → (done ++ passed ≠ [] → u.cursor.before = (done ++ passed).getLast?) →
      (u.step g).nesting = u.nesting)
    (w : Walk) (stands : w.cursor.rest = cs ++ later) (angles : w.nesting.angles = 0)
    (before : done ≠ [] → w.cursor.before = done.getLast?) : Moves g base cs later (cs.map .code) w := by
  induction cs generalizing done w with
  | nil =>
    refine ⟨?_, rfl, rfl, by simp [Walk.seen_nil]⟩
    rw [List.map_nil, Walk.across_nil]
    exact congrArg (fun rest => (⟨w.cursor.offset, w.cursor.before, rest⟩ : Cursor)) stands
  | cons c rest ih =>
    have kept := level [] c rest rfl w stands angles (by rwa [List.append_nil])
    have single : Moves g base [c] (rest ++ later) [.code c] w := by
      refine ⟨?_, kept, ?_, ?_⟩
      · rw [size_singleton]
        exact Walk.cursor_step stands
      · rw [last_ink_singleton]
        have previous := Walk.previous_step (g := g) stands
        cases blank : isAsciiBlank c with
        | true =>
          rw [blank] at previous
          exact previous
        | false =>
          rw [blank] at previous
          exact previous
      · intro v member
        rw [Walk.seen_code stands, List.mem_cons] at member
        rcases member with rfl | none
        · exact .inr ⟨rfl, bases c List.mem_cons_self⟩
        · contradiction
    refine single.append (ih (fun d member => bases d (List.mem_cons_of_mem c member)) (done ++ [c]) ?_ (w.step g) ?_ ?_ ?_)
    · intro passed d more split
      rw [List.append_assoc, List.singleton_append]
      exact level (c :: passed) d more (by rw [split, List.cons_append])
    · rw [Walk.cursor_step stands]
      rfl
    · rw [kept]
      exact angles
    · intro _
      rw [Walk.cursor_step stands, List.getLast?_concat]

end

end SnippetReview
