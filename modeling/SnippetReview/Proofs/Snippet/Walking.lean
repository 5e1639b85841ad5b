import SnippetReview.Proofs.Lexing.Partition
import SnippetReview.Snippet.Walk

set_option autoImplicit false

namespace SnippetReview

open Text

theorem Text.Cursor.advance_append (offset : Nat) (before : Option Char) (s later : List Char) :
    (Cursor.mk offset before (s ++ later)).advance s.length = ⟨offset + size s, s.getLast?.or before, later⟩ := by
  induction s generalizing offset before with
  | nil => rfl
  | cons c rest ih =>
    have moved := ih (offset + c.utf8Size) (some c)
    rw [List.length_cons, size_cons, List.getLast?_cons, ← Nat.add_assoc]
    cases last : rest.getLast? with
    | none =>
      rw [last] at moved
      exact moved
    | some d =>
      rw [last] at moved
      exact moved

namespace Walk

def passToken (g : Grammar) (w : Walk) : Token → Walk
  | .code _ => w.step g
  | .literal l text => w.passOver g (Segment.ofLiteral 0 l text)

def across (g : Grammar) (w : Walk) (tokens : List Token) : Walk := tokens.foldl (passToken g) w

theorem across_nil (g : Grammar) (w : Walk) : w.across g [] = w := rfl

theorem across_cons (g : Grammar) (w : Walk) (t : Token) (rest : List Token) :
    w.across g (t :: rest) = (w.passToken g t).across g rest := rfl

theorem across_append (g : Grammar) (w : Walk) (first rest : List Token) :
    w.across g (first ++ rest) = (w.across g first).across g rest := List.foldl_append

theorem steps_eq (g : Grammar) (w : Walk) (cs : List Char) : w.steps g cs.length = w.across g (cs.map .code) := by
  induction cs generalizing w with
  | nil => rfl
  | cons c rest ih => exact ih (w.step g)

-- Code is walked over character by character, however it is cut into segments.
theorem fold_of_tokens (g : Grammar) (w : Walk) (start : Nat) (code : List Char) (tokens : List Token) :
    (Segment.ofTokens start code tokens).foldl (passOver g) w = w.across g (code.reverse.map .code ++ tokens) := by
  have code_part : ∀ start code (w : Walk),
      (Segment.ofCode start code).foldl (passOver g) w = w.across g (code.reverse.map .code) := by
    intro start code w
    cases code with
    | nil => rfl
    | cons c code => exact w.steps_eq g (c :: code).reverse
  induction tokens generalizing w start code with
  | nil => rw [Segment.ofTokens, code_part, List.append_nil]
  | cons t rest ih =>
    cases t with
    | code c =>
      rw [Segment.ofTokens, ih, List.reverse_cons, List.map_append, List.append_assoc]
      rfl
    | literal l text =>
      rw [Segment.ofTokens, List.foldl_append, List.foldl_cons, code_part, ih, across_append, across_append, across_cons]
      rfl

def fresh (w : Walk) : Walk := { w with visits := [] }

def seen (g : Grammar) (w : Walk) (tokens : List Token) : List Visit := (w.fresh.across g tokens).visits.reverse

def behind (w : Walk) (earlier : List Visit) : Walk := { w with visits := w.visits ++ earlier }

theorem pass_token_behind (g : Grammar) (w : Walk) (earlier : List Visit) (t : Token) :
    (w.behind earlier).passToken g t = (w.passToken g t).behind earlier := by
  have step_behind : ∀ w : Walk, (w.behind earlier).step g = (w.step g).behind earlier := by
    intro w
    unfold step behind
    cases w.cursor.rest <;> rfl
  cases t with
  | code c => exact step_behind w
  | literal l text =>
    have steps_behind : ∀ n, ∀ w : Walk, (w.behind earlier).steps g n = (w.steps g n).behind earlier := by
      intro n
      induction n with
      | zero => exact fun w => rfl
      | succ n ih => exact fun w => by rw [steps, steps, step_behind, ih]
    unfold passToken passOver
    simp only [Segment.ofLiteral]
    cases l.kind with
    | code => exact steps_behind text.length w
    | quoted => rfl
    | regex => rfl
    | comment => rfl

theorem across_behind (g : Grammar) (w : Walk) (earlier : List Visit) (tokens : List Token) :
    (w.behind earlier).across g tokens = (w.across g tokens).behind earlier := by
  induction tokens generalizing w with
  | nil => rfl
  | cons t rest ih => rw [across_cons, across_cons, pass_token_behind, ih]

theorem across_eq (g : Grammar) (w : Walk) (tokens : List Token) :
    w.across g tokens = (w.fresh.across g tokens).behind w.visits := across_behind g w.fresh w.visits tokens

theorem seen_nil (g : Grammar) (w : Walk) : w.seen g [] = [] := rfl

theorem seen_append (g : Grammar) (w : Walk) (first rest : List Token) :
    w.seen g (first ++ rest) = w.seen g first ++ (w.across g first).seen g rest := by
  have again : (w.fresh.across g first).fresh = (w.across g first).fresh := by
    rw [across_eq g w first]
    rfl
  unfold seen
  rw [across_append, across_eq g (w.fresh.across g first), again, behind, List.reverse_append]

def visitAt (g : Grammar) (w : Walk) (c : Char) (rest : List Char) : Visit :=
  ⟨w.cursor.offset, w.cursor.before, c, rest, w.nesting.depth, w.previous, wordAt g w.cursor.before c rest⟩

theorem seen_code {g : Grammar} {w : Walk} {c : Char} {later : List Char} (stands : w.cursor.rest = c :: later)
    (rest : List Token) : w.seen g (.code c :: rest) = w.visitAt g c later :: (w.step g).seen g rest := by
  have single : w.seen g [.code c] = [w.visitAt g c later] := by
    unfold seen across fresh
    simp only [List.foldl_cons, List.foldl_nil, passToken, step, stands]
    rfl
  have both := seen_append g w [.code c] rest
  rw [single] at both
  exact both

theorem seen_literal (g : Grammar) (w : Walk) (l : Literal) (text : List Char) (rest : List Token)
    (kind : l.kind ≠ .code) : w.seen g (.literal l text :: rest) = (w.passToken g (.literal l text)).seen g rest := by
  have none : w.seen g [.literal l text] = [] := by
    unfold seen across passToken fresh
    simp only [List.foldl_cons, List.foldl_nil, passOver, Segment.ofLiteral]
    cases kindEq : l.kind with
    | code => exact absurd kindEq kind
    | quoted => rfl
    | regex => rfl
    | comment => rfl
  have both := seen_append g w [.literal l text] rest
  rw [none] at both
  exact both

theorem cursor_step {g : Grammar} {w : Walk} {c : Char} {later : List Char} (stands : w.cursor.rest = c :: later) :
    (w.step g).cursor = ⟨w.cursor.offset + c.utf8Size, some c, later⟩ := by
  unfold step
  rw [stands]

theorem previous_step {g : Grammar} {w : Walk} {c : Char} {later : List Char} (stands : w.cursor.rest = c :: later) :
    (w.step g).previous = if isAsciiBlank c then w.previous else some c := by
  unfold step
  rw [stands]

theorem cursor_literal {g : Grammar} {w : Walk} {l : Literal} {text later : List Char} (kind : l.kind ≠ .code)
    (stands : w.cursor.rest = text ++ later) :
    (w.passToken g (.literal l text)).cursor =
      ⟨w.cursor.offset + size text, text.getLast?.or w.cursor.before, later⟩ := by
  have moved := Cursor.advance_append w.cursor.offset w.cursor.before text later
  rw [← stands] at moved
  unfold passToken passOver
  simp only [Segment.ofLiteral]
  cases kindEq : l.kind with
  | code => exact absurd kindEq kind
  | quoted => exact moved
  | regex => exact moved
  | comment => exact moved

end Walk

def holding (last : Option Visit) : List Visit → List Visit
  | [] => []
  | v :: rest => v.held last :: holding (some (v.held last)) rest

theorem held_from_eq (done vs : List Visit) : heldFrom done vs = done.reverse ++ holding done.head? vs := by
  induction vs generalizing done with
  | nil => rw [heldFrom, holding, List.append_nil]
  | cons v rest ih => rw [heldFrom, ih, holding, List.reverse_cons, List.append_assoc, List.head?_cons, List.singleton_append]

theorem Visit.held_eq (last : Option Visit) (v : Visit) : v.held last = { v with depth := (v.held last).depth } := by
  cases last with
  | none => rfl
  | some last =>
    unfold held
    dsimp only
    split <;> rfl

def Visit.isInner (v : Visit) : Bool := v.word.isNone && isIdentChar v.char

theorem Visit.held_outer {v : Visit} (outer : v.isInner = false) (last : Option Visit) : v.held last = v := by
  cases last with
  | none => rfl
  | some last =>
    rw [isInner] at outer
    unfold held
    dsimp only
    rw [goesOn, outer, Bool.false_and, Bool.false_and]
    rfl

theorem Visit.inner_held (last : Option Visit) (v : Visit) : (v.held last).isInner = v.isInner := by
  rw [held_eq]
  rfl

theorem filter_holding {p : Visit → Bool} (outer : ∀ v : Visit, v.isInner = true → p v = false) (last : Option Visit)
    (vs : List Visit) : (holding last vs).filter p = vs.filter p := by
  induction vs generalizing last with
  | nil => rfl
  | cons v rest ih =>
    rw [holding, List.filter_cons, List.filter_cons, ih]
    cases inner : v.isInner with
    | false => rw [Visit.held_outer inner]
    | true =>
      rw [outer v inner, outer (v.held last) ((v.inner_held last).trans inner)]
      rfl

theorem visits_eq (g : Grammar) (text : List Char) :
    visits g text =
      (if g.blockWords.isSome then holding none else id) (Walk.seen g { cursor := Cursor.start text } (tokens g text)) := by
  have seen : Walk.seen g { cursor := Cursor.start text } (tokens g text) =
      ((segments g text).foldl (Walk.passOver g) { cursor := Cursor.start text }).visits.reverse := by
    rw [segments_eq, Walk.fold_of_tokens]
    rfl
  rw [seen, visits]
  split
  · exact held_from_eq [] _
  · rfl

theorem visits_wordless {g : Grammar} (wordless : g.blockWords = none) (text : List Char) :
    visits g text = Walk.seen g { cursor := Cursor.start text } (tokens g text) := by
  rw [visits_eq, wordless]
  rfl

theorem filter_visits {p : Visit → Bool} (outer : ∀ v : Visit, v.isInner = true → p v = false) (g : Grammar)
    (text : List Char) :
    (visits g text).filter p = (Walk.seen g { cursor := Cursor.start text } (tokens g text)).filter p := by
  rw [visits_eq]
  split
  · exact filter_holding outer none _
  · rfl

theorem find_outside_eq {accepts : Visit → Bool} (outer : ∀ v : Visit, v.isInner = true → accepts v = false) (g : Grammar)
    (text : List Char) :
    findOutside g text accepts =
      (Walk.seen g { cursor := Cursor.start text } (tokens g text)).find? fun v => v.depth == 0 && accepts v := by
  have chosen : ∀ v : Visit, v.isInner = true → (v.depth == 0 && accepts v) = false := by
    intro v inner
    rw [outer v inner, Bool.and_false]
  rw [findOutside, ← List.head?_filter, ← List.head?_filter, filter_visits chosen]

end SnippetReview
