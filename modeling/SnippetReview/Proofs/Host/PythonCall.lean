import SnippetReview.Proofs.Host.PythonText
import SnippetReview.Proofs.Snippet.Splitting

set_option autoImplicit false

namespace SnippetReview

open Text

namespace Part

variable (parts more : List Part) (offset : Nat) (later : List Char)

def followed : List Char := parts.flatMap fun p => ',' :: p.text

def places (offset : Nat) (later : List Char) : List Part → List Slice
  | [] => []
  | p :: rest => p.piece offset (followed rest ++ later) ++ places (offset + size p.text + 1) later rest

theorem size_comma (s : List Char) : size (',' :: s) = 1 + size s := size_cons ',' s

theorem size_text (p : Part) : size p.text = size p.lead + size p.body + size p.trail := by
  rw [text, size_append, size_append]

theorem followed_cons (p : Part) (rest : List Part) : followed (p :: rest) = ',' :: p.text ++ followed rest := rfl

theorem size_followed_cons (p : Part) (rest : List Part) :
    size (followed (p :: rest)) = 1 + size p.text + size (followed rest) := by
  rw [followed_cons, size_append, size_comma]

theorem size_followed_singleton (p : Part) : size (followed [p]) = 1 + size p.text := size_followed_cons p []

theorem followed_append : followed (parts ++ more) = followed parts ++ followed more := List.flatMap_append

theorem join_eq (p : Part) (rest : List Part) : join ',' p rest = p.text ++ followed rest := by
  induction rest generalizing p with
  | nil => simp [join, followed]
  | cons q rest ih => simp [join, ih, followed]

theorem pieces_eq (p : Part) (rest : List Part) : pieces ',' offset p rest = places offset [] (p :: rest) := by
  induction rest generalizing p offset with
  | nil => simp [pieces, places, followed]
  | cons q rest ih =>
    have behind : ',' :: join ',' q rest = followed (q :: rest) ++ [] := by
      rw [join_eq]
      simp [followed]
    rw [pieces, ih, behind]
    rfl

theorem places_append : places offset later (parts ++ more) =
    places offset (followed more ++ later) parts ++ places (offset + size (followed parts)) later more := by
  induction parts generalizing offset with
  | nil => simp [places, followed]
  | cons p rest ih =>
    have sum : offset + size p.text + 1 + size (followed rest) = offset + size (followed (p :: rest)) := by
      rw [size_followed_cons]
      omega
    rw [List.cons_append, places, ih, places, followed_append, sum]
    simp

theorem places_bounds {item : Slice} (member : item ∈ places offset later parts) :
    offset ≤ item.start ∧ item.start < item.stop ∧ item.stop < offset + size (followed parts) := by
  induction parts generalizing offset with
  | nil => exact absurd member List.not_mem_nil
  | cons p rest ih =>
    have whole := size_followed_cons p rest
    rcases List.mem_append.mp member with here | further
    · have text := size_text p
      unfold piece at here
      split at here
      next => exact absurd here List.not_mem_nil
      next some =>
        have sized : size p.body ≠ 0 := fun zero => some (size_eq_zero_iff.mp zero)
        rw [List.mem_singleton.mp here, Slice.stop, Slice.start_place, Slice.size_place]
        omega
    · have bounds := ih _ further
      omega

end Part

namespace Python

-- An anonymous function: its parameters as they stand between the commas, and its body.
structure Lambda where
  first : Part
  others : List Part
  gap : List Char
  body : List Char

inductive ArgumentValue where
  | plain (text : List Char)
  | function (f : Lambda)

structure Argument where
  lead : List Char
  key : List Char
  before : List Char
  after : List Char
  value : ArgumentValue
  trail : List Char

-- The arguments of a call, and perhaps a last comma with blanks behind it.
structure Call where
  arguments : List Argument
  ending : Option (List Char)

namespace Lambda

variable (f : Lambda)

def text : List Char := "lambda".toList ++ Part.join ',' f.first f.others ++ ':' :: (f.gap ++ f.body)

-- The last of several parameters takes no further arguments in, positional or named ones.
def Settled : Prop := ∀ p ∈ f.others.getLast?, p.body.head? ≠ some '*'

-- A function in Python, as far as it matters where its parameters and its body end.
structure WellFormed : Prop where
  blanks : ∀ p ∈ f.first :: f.others, Blanks p.lead ∧ Blanks p.trail
  -- All blanks of an empty part count as those before it.
  bodies : ∀ p ∈ f.first :: f.others, p.body = [] ∧ p.trail = [] ∨ Inked p.body
  parameters : ∀ p ∈ f.first :: f.others, grammar.isExpression isParameter p.body = true
  apart : ∀ c ∈ f.first.text.head?, isBreak c = true
  begun : f.others ≠ [] → f.first.body ≠ []
  gap : Blanks f.gap
  inked : Inked f.body
  body : grammar.isExpression isItem f.body = true
  single : (f.gap ++ f.body).head? ≠ some ':'

def rest (trail : List Char) : Part → List Part → List Part
  | q, [] => [⟨q.lead, q.body ++ q.trail ++ ':' :: (f.gap ++ f.body), trail⟩]
  | q, r :: more => q :: rest trail r more

def parts (lead head trail : List Char) : List Part :=
  match f.others with
  | [] => [⟨lead, head ++ f.text, trail⟩]
  | q :: more => ⟨lead, head ++ "lambda".toList ++ f.first.lead ++ f.first.body, f.first.trail⟩ :: f.rest trail q more

theorem text_eq : f.text = "lambda".toList ++ Part.join ',' f.first f.others ++ ':' :: (f.gap ++ f.body) := rfl

theorem followed_rest (trail : List Char) (q : Part) (more : List Part) : Part.followed (f.rest trail q more) =
    ',' :: (Part.join ',' q more ++ ':' :: (f.gap ++ f.body) ++ trail) := by
  induction more generalizing q with
  | nil => simp [rest, Part.followed, Part.text, Part.join]
  | cons r more ih =>
    rw [rest, Part.followed_cons, ih]
    simp [Part.join]

theorem followed_parts (lead head trail : List Char) :
    Part.followed (f.parts lead head trail) = ',' :: (lead ++ (head ++ f.text) ++ trail) := by
  rw [parts, text_eq]
  cases f.others with
  | nil => simp [Part.followed, Part.text]
  | cons q more =>
    dsimp only
    rw [Part.followed_cons, followed_rest]
    simp [Part.text, Part.join]

end Lambda

namespace ArgumentValue

def text : ArgumentValue → List Char
  | plain s => s
  | function f => f.text

def isFunction : ArgumentValue → Bool
  | plain _ => false
  | function _ => true

def WellFormed : ArgumentValue → Prop
  | plain s => Inked s ∧ grammar.isExpression isItem s = true ∧ grammar.callables.any (·.matchesIn s) = false
  | function f => f.WellFormed

def Settled : ArgumentValue → Prop
  | plain _ => True
  | function f => f.Settled

end ArgumentValue

namespace Argument

variable (a : Argument)

def head : List Char := a.key ++ a.before ++ '=' :: a.after

def text : List Char := a.head ++ a.value.text

def whole : List Char := a.lead ++ a.text ++ a.trail

structure WellFormed : Prop where
  blanks : ∀ s ∈ [a.lead, a.before, a.after, a.trail], Blanks s
  key : isName a.key = true
  value : a.value.WellFormed
  -- The equals sign is no part of a longer operator.
  sign : ∀ c ∈ (a.after ++ a.value.text).head?, c ∉ ['=', '>', '~']

def parts : List Part :=
  match a.value with
  | .plain _ => [⟨a.lead, a.text, a.trail⟩]
  | .function f => f.parts a.lead a.head a.trail

theorem followed_parts : Part.followed a.parts = ',' :: a.whole := by
  unfold parts whole text
  cases value : a.value with
  | plain s => simp [Part.followed, Part.text, ArgumentValue.text]
  | function f => simpa [ArgumentValue.text] using f.followed_parts a.lead a.head a.trail

-- Arguments with commas between them, each with the place where its value starts.
def placed (offset : Nat) : List Argument → List (Argument × Nat)
  | [] => []
  | a :: rest => (a, offset + size (a.lead ++ a.head)) :: placed (offset + size a.whole + 1) rest

def statements (offset : Nat) (later : List Char) : List Argument → List Slice
  | [] => []
  | a :: rest =>
    Slice.place (offset + size a.lead) a.text (a.trail ++ (Part.followed (rest.flatMap parts) ++ later))
      :: statements (offset + size a.whole + 1) later rest

theorem placed_arguments (offset : Nat) (arguments : List Argument) : (placed offset arguments).map (·.1) = arguments := by
  induction arguments generalizing offset with
  | nil => rfl
  | cons a rest ih => rw [placed, List.map_cons, ih]

theorem size_followed_parts : size (Part.followed a.parts) = size a.whole + 1 := by
  rw [followed_parts, Part.size_comma, Nat.add_comm]

end Argument

namespace Call

variable (call : Call)

def text : List Char := [','].intercalate (call.arguments.map Argument.whole ++ call.ending.toList)

structure WellFormed : Prop where
  arguments : ∀ a ∈ call.arguments, a.WellFormed
  distinct : (call.arguments.map (·.key)).Nodup
  ending : ∀ s ∈ call.ending, Blanks s

def Settled : Prop := ∀ a ∈ call.arguments, a.value.Settled

def parts : List Part := call.arguments.flatMap Argument.parts ++ call.ending.toList.map fun blanks => ⟨blanks, [], []⟩

theorem followed_arguments (arguments : List Argument) :
    Part.followed (arguments.flatMap Argument.parts) = (arguments.map Argument.whole).flatMap (',' :: ·) := by
  induction arguments with
  | nil => rfl
  | cons a rest ih => rw [List.flatMap_cons, Part.followed_append, ih, a.followed_parts, List.map_cons, List.flatMap_cons]

theorem intercalate_commas (s : List Char) (rest : List (List Char)) :
    ',' :: [','].intercalate (s :: rest) = (s :: rest).flatMap (',' :: ·) := by
  induction rest generalizing s with
  | nil => simp
  | cons t rest ih =>
    rw [List.intercalate_cons_cons, List.flatMap_cons, ← ih]
    simp

theorem followed_eq : Part.followed call.parts = (call.arguments.map Argument.whole ++ call.ending.toList).flatMap (',' :: ·) := by
  rw [parts, Part.followed_append, followed_arguments, List.flatMap_append]
  congr 1
  cases call.ending <;> simp [Part.followed, Part.text]

theorem text_eq (p : Part) (rest : List Part) (split : call.parts = p :: rest) : call.text = Part.join ',' p rest := by
  have commas := call.followed_eq
  have first : Part.followed (p :: rest) = ',' :: Part.join ',' p rest := by
    rw [Part.join_eq]
    rfl
  rw [split, first] at commas
  unfold text
  cases shape : call.arguments.map Argument.whole ++ call.ending.toList with
  | nil =>
    rw [shape] at commas
    contradiction
  | cons s more =>
    rw [shape, ← intercalate_commas] at commas
    exact (List.cons.inj commas).2.symm

theorem text_empty (none : call.parts = []) : call.text = [] := by
  have commas := call.followed_eq
  rw [none] at commas
  unfold text
  cases shape : call.arguments.map Argument.whole ++ call.ending.toList with
  | nil => rfl
  | cons s more =>
    rw [shape] at commas
    contradiction

end Call

end Python

end SnippetReview
