import SnippetReview.Proofs.Lexing.Appending
import SnippetReview.Proofs.Snippet.Walking

set_option autoImplicit false

namespace SnippetReview

open Text

structure Visit.Stands (text : List Char) (v : Visit) (done : List Char) : Prop where
  text : text = done ++ v.char :: v.rest
  offset : v.offset = size done
  before : v.before = done.getLast?

theorem Visit.Stands.size_eq {text done : List Char} {v : Visit} (stands : v.Stands text done) :
    v.offset + v.char.utf8Size + size v.rest = size text := by
  rw [stands.text, stands.offset, size_append, size_cons, Nat.add_assoc]

def InRow : List Char → List Char → List Visit → Prop
  | _, _, [] => True
  | done, tail, v :: rest =>
    ∃ piece, tail = piece ++ v.char :: v.rest ∧ v.offset = size (done ++ piece) ∧ v.before = (done ++ piece).getLast? ∧
      InRow (done ++ piece ++ [v.char]) v.rest rest

namespace InRow

variable {done tail : List Char} {vs : List Visit}

theorem prepend (passed : List Char) (row : InRow (done ++ passed) tail vs) : InRow done (passed ++ tail) vs := by
  cases vs with
  | nil => trivial
  | cons v rest =>
    obtain ⟨piece, split, offset, before, later⟩ := row
    refine ⟨passed ++ piece, by rw [split, List.append_assoc], ?_, ?_, ?_⟩
    · rwa [← List.append_assoc]
    · rwa [← List.append_assoc]
    · rwa [← List.append_assoc done]

theorem filter (p : Visit → Bool) (row : InRow done tail vs) : InRow done tail (vs.filter p) := by
  induction vs generalizing done tail with
  | nil => trivial
  | cons v rest ih =>
    obtain ⟨piece, split, offset, before, later⟩ := row
    rw [List.filter_cons]
    split
    · exact ⟨piece, by assumption, offset, before, ih later⟩
    · have next := ih later
      rw [List.append_assoc] at next
      rw [split, List.append_cons]
      exact next.prepend _

theorem holding (row : InRow done tail vs) (last : Option Visit) : InRow done tail (holding last vs) := by
  induction vs generalizing done tail last with
  | nil => trivial
  | cons v rest ih =>
    obtain ⟨piece, split, offset, before, later⟩ := row
    rw [SnippetReview.holding, Visit.held_eq]
    exact ⟨piece, split, offset, before, ih later _⟩

theorem stands {v : Visit} (row : InRow done tail vs) (member : v ∈ vs) : ∃ before, v.Stands (done ++ tail) before := by
  induction vs generalizing done tail with
  | nil => contradiction
  | cons first rest ih =>
    obtain ⟨piece, split, offset, before, later⟩ := row
    rcases List.mem_cons.mp member with rfl | further
    · exact ⟨done ++ piece, by rw [split, List.append_assoc], offset, before⟩
    · have next := ih later further
      rw [split]
      rwa [List.append_assoc, List.append_assoc, List.singleton_append] at next

end InRow

namespace Walk

def At (w : Walk) (done rest : List Char) : Prop := w.cursor = ⟨size done, done.getLast?, rest⟩

variable {g : Grammar} {w : Walk}

theorem At.step {done rest : List Char} {c : Char} (here : w.At done (c :: rest)) :
    (w.step g).At (done ++ [c]) rest := by
  have moved := cursor_step (g := g) (show w.cursor.rest = c :: rest by rw [here])
  unfold At at *
  rw [moved, here, size_append, size_singleton, List.getLast?_concat]

theorem At.literal {done text rest : List Char} {l : Literal} (here : w.At done (text ++ rest)) (kind : l.kind ≠ .code) :
    (w.passToken g (.literal l text)).At (done ++ text) rest := by
  have moved := cursor_literal (g := g) kind (show w.cursor.rest = text ++ rest by rw [here])
  unfold At at *
  rw [moved, here, size_append, List.getLast?_append]

theorem At.across {tokens : List Token} {done rest : List Char} (here : w.At done (flatten tokens ++ rest))
    (kinds : ∀ l text, Token.literal l text ∈ tokens → l.kind ≠ .code) : (w.across g tokens).At (done ++ flatten tokens) rest := by
  induction tokens generalizing w done with
  | nil => rwa [flatten, List.flatMap_nil, List.append_nil]
  | cons t later ih =>
    have others : ∀ l text, Token.literal l text ∈ later → l.kind ≠ .code :=
      fun l text inside => kinds l text (List.mem_cons_of_mem t inside)
    rw [flatten, List.flatMap_cons, ← flatten, List.append_assoc] at here
    rw [across_cons, flatten, List.flatMap_cons, ← flatten, ← List.append_assoc]
    cases t with
    | code c => exact ih (At.step here) others
    | literal l text => exact ih (At.literal here (kinds l text List.mem_cons_self)) others

theorem seen_in_row {tokens : List Token} {done later : List Char} (here : w.At done (flatten tokens ++ later))
    (kinds : ∀ l text, Token.literal l text ∈ tokens → l.kind ≠ .code) :
    InRow done (flatten tokens ++ later) (w.seen g tokens) := by
  induction tokens generalizing w done with
  | nil => trivial
  | cons t rest ih =>
    have others : ∀ l text, Token.literal l text ∈ rest → l.kind ≠ .code :=
      fun l text inside => kinds l text (List.mem_cons_of_mem t inside)
    rw [flatten, List.flatMap_cons, ← flatten, List.append_assoc] at here ⊢
    cases t with
    | code c =>
      have stands : w.cursor.rest = c :: (flatten rest ++ later) := by
        rw [here]
        rfl
      rw [seen_code stands]
      refine ⟨[], rfl, ?_, ?_, ?_⟩
      · rw [visitAt, here, List.append_nil]
      · rw [visitAt, here, List.append_nil]
      · rw [List.append_nil]
        exact ih (At.step here) others
    | literal l text =>
      have kind := kinds l text List.mem_cons_self
      rw [seen_literal g w l text rest kind]
      exact (ih (At.literal here kind) others).prepend text

end Walk

theorem word_of_visits {g : Grammar} {text : List Char} {v : Visit} (member : v ∈ visits g text) :
    v.word = Walk.wordAt g v.before v.char v.rest := by
  have step : ∀ w : Walk, (∀ v ∈ w.visits, v.word = Walk.wordAt g v.before v.char v.rest) →
      ∀ v ∈ (w.step g).visits, v.word = Walk.wordAt g v.before v.char v.rest := by
    intro w told
    unfold Walk.step
    split
    · exact told
    · exact List.forall_mem_cons.mpr ⟨rfl, told⟩
  have steps : ∀ n (w : Walk), (∀ v ∈ w.visits, v.word = Walk.wordAt g v.before v.char v.rest) →
      ∀ v ∈ (w.steps g n).visits, v.word = Walk.wordAt g v.before v.char v.rest := by
    intro n
    induction n with
    | zero => exact fun w told => told
    | succ n ih => exact fun w told => ih (w.step g) (step w told)
  have held : ∀ (vs : List Visit) (last : Option Visit), (∀ v ∈ vs, v.word = Walk.wordAt g v.before v.char v.rest) →
      ∀ v ∈ holding last vs, v.word = Walk.wordAt g v.before v.char v.rest := by
    intro vs
    induction vs with
    | nil => exact fun _ told => told
    | cons first rest ih =>
      intro last told
      rw [holding]
      refine List.forall_mem_cons.mpr ⟨?_, ih _ fun v member => told v (List.mem_cons_of_mem first member)⟩
      rw [Visit.held_eq]
      exact told first List.mem_cons_self
  have walk : ∀ (segments : List Segment) (w : Walk), (∀ v ∈ w.visits, v.word = Walk.wordAt g v.before v.char v.rest) →
      ∀ v ∈ (segments.foldl (Walk.passOver g) w).visits, v.word = Walk.wordAt g v.before v.char v.rest := by
    intro segments
    induction segments with
    | nil => exact fun w told => told
    | cons s rest ih =>
      refine fun w told => ih (w.passOver g s) ?_
      unfold Walk.passOver
      cases s.kind with
      | code => exact steps s.text.length w told
      | quoted | regex | comment => exact told
  have seen := walk (segments g text) { cursor := Cursor.start text } (List.forall_mem_nil _)
  rw [visits] at member
  split at member
  · rw [held_from_eq] at member
    exact held _ none (fun v member => seen v (List.mem_reverse.mp member)) v member
  · exact seen v (List.mem_reverse.mp member)

theorem visits_in_row (g : Grammar) (text : List Char) : InRow [] text (visits g text) := by
  have whole : Walk.At { cursor := Cursor.start text } [] (flatten (tokens g text) ++ []) := by
    rw [tokens, flatten_tokens_from, List.append_nil]
    rfl
  have row := Walk.seen_in_row (g := g) whole fun l inner inside => kind_of_mem_tokens inside
  rw [tokens, flatten_tokens_from, List.append_nil] at row
  rw [visits_eq]
  split
  · exact row.holding none
  · exact row

theorem stands_of_visits {g : Grammar} {text : List Char} {v : Visit} (member : v ∈ visits g text) :
    ∃ done, v.Stands text done := (visits_in_row g text).stands member

theorem stands_of_outside {g : Grammar} {text : List Char} {accepts : Visit → Bool} {v : Visit}
    (found : findOutside g text accepts = some v) : ∃ done, v.Stands text done :=
  stands_of_visits (List.mem_of_find?_eq_some found)

theorem stands_of_close {g : Grammar} {text : List Char} {closing : Char} {v : Visit}
    (found : matchingClose g text closing = some v) : v.char = closing ∧ ∃ done, v.Stands text done := by
  rw [matchingClose, Option.filter_eq_some_iff] at found
  exact ⟨beq_iff_eq.mp found.2, stands_of_outside found.1⟩

section

variable {g : Grammar} (tail : List Char)

def Visit.extend (v : Visit) : Visit := { v with rest := v.rest ++ tail }

def Walk.extend (w : Walk) : Walk :=
  { w with cursor := { w.cursor with rest := w.cursor.rest ++ tail }, visits := w.visits.map (Visit.extend tail) }

def Grammar.Shortsighted (g : Grammar) : Prop := g.blockWords = none ∧ g.generics = false

-- What stands behind the text does not matter to the step that a walk takes from here.
def Grammar.Sighted (g : Grammar) (s : List Char) : Prop :=
  ∀ w : Walk, w.cursor.rest = s → (w.extend tail).step g = (w.step g).extend tail

theorem Grammar.sighted_of_same {c : Char} {rest : List Char}
    (word : ∀ before, Walk.wordAt g before c (rest ++ tail) = Walk.wordAt g before c rest)
    (level : ∀ (n : Nesting) before, n.after g before c (rest ++ tail) = n.after g before c rest)
    (effect : ∀ (words : BlockWords) before word lineHasCode, Walk.wordAt g before c rest = some word →
      words.effect before word ((rest ++ tail).drop (word.length - 1)) lineHasCode =
        words.effect before word (rest.drop (word.length - 1)) lineHasCode) : g.Sighted tail (c :: rest) := by
  intro w stands
  unfold Walk.extend Walk.step
  rw [stands]
  simp only [List.cons_append, word, level, List.map_cons]
  cases here : Walk.wordAt g w.cursor.before c rest with
  | none => rfl
  | some found =>
    cases g.blockWords with
    | none => rfl
    | some words =>
      simp only [effect words _ found _ here]
      rfl

theorem Grammar.Shortsighted.sighted (blind : g.Shortsighted) (c : Char) (rest : List Char) : g.Sighted tail (c :: rest) := by
  have wordless : ∀ before ahead, Walk.wordAt g before c ahead = none := by
    intro before ahead
    unfold Walk.wordAt
    rw [blind.1]
    rfl
  refine Grammar.sighted_of_same tail (fun before => by rw [wordless, wordless]) (fun n before => ?_) fun _ before _ _ here => ?_
  · unfold Nesting.after
    simp only [blind.2, Bool.and_false, Bool.false_and]
  · rw [wordless] at here
    contradiction

theorem Text.Cursor.advance_extend {cursor : Cursor} {text later : List Char} (stands : cursor.rest = text ++ later) :
    ({ cursor with rest := cursor.rest ++ tail } : Cursor).advance text.length =
      { cursor.advance text.length with rest := (cursor.advance text.length).rest ++ tail } := by
  obtain ⟨offset, before, rest⟩ := cursor
  replace stands : rest = text ++ later := stands
  rw [stands, Cursor.advance_append]
  simp only [List.append_assoc, Cursor.advance_append]

theorem Walk.literal_extend {w : Walk} {l : Literal} {text later : List Char} (kind : l.kind ≠ .code)
    (stands : w.cursor.rest = text ++ later) :
    (w.extend tail).passToken g (.literal l text) = (w.passToken g (.literal l text)).extend tail := by
  have moved := Cursor.advance_extend tail stands
  unfold Walk.passToken Walk.passOver Walk.extend
  simp only [Segment.ofLiteral]
  cases kindEq : l.kind with
  | code => exact absurd kindEq kind
  | quoted => simp only [moved]
  | regex => simp only [moved]
  | comment => simp only [moved]

theorem Walk.across_extend {w : Walk} {tokens : List Token} {later : List Char}
    (stands : w.cursor.rest = flatten tokens ++ later)
    (kinds : ∀ l text, Token.literal l text ∈ tokens → l.kind ≠ .code)
    (sighted : ∀ c rest, c :: rest <:+ flatten tokens ++ later → g.Sighted tail (c :: rest)) :
    (w.extend tail).across g tokens = (w.across g tokens).extend tail := by
  induction tokens generalizing w with
  | nil => rfl
  | cons t rest ih =>
    have others : ∀ l text, Token.literal l text ∈ rest → l.kind ≠ .code :=
      fun l text inside => kinds l text (List.mem_cons_of_mem t inside)
    rw [flatten, List.flatMap_cons, ← flatten, List.append_assoc] at stands sighted
    have further := fun c more inside => sighted c more (List.IsSuffix.trans inside (List.suffix_append t.text _))
    rw [Walk.across_cons, Walk.across_cons]
    cases t with
    | code c =>
      have next : (w.step g).cursor.rest = flatten rest ++ later := by
        rw [Walk.cursor_step stands]
        rfl
      have here := sighted c (flatten rest ++ later) (List.suffix_refl _) w stands
      exact (congrArg (Walk.across g · rest) here).trans (ih next others further)
    | literal l text =>
      have kind := kinds l text List.mem_cons_self
      have next : (w.passToken g (.literal l text)).cursor.rest = flatten rest ++ later := by
        rw [Walk.cursor_literal kind (show w.cursor.rest = text ++ _ from stands)]
      rw [Walk.literal_extend tail kind (show w.cursor.rest = text ++ _ from stands), ih next others further]

theorem Walk.seen_extend {w : Walk} {tokens : List Token} {later : List Char}
    (stands : w.cursor.rest = flatten tokens ++ later)
    (kinds : ∀ l text, Token.literal l text ∈ tokens → l.kind ≠ .code)
    (sighted : ∀ c rest, c :: rest <:+ flatten tokens ++ later → g.Sighted tail (c :: rest)) :
    (w.extend tail).seen g tokens = (w.seen g tokens).map (Visit.extend tail) := by
  have across := Walk.across_extend tail (show w.fresh.cursor.rest = _ from stands) kinds sighted
  unfold Walk.seen
  rw [List.map_reverse]
  exact congrArg (fun w => w.visits.reverse) across

theorem visits_append_quiet (legible : g.Legible) (blind : g.Shortsighted) (quiet : g.Quiet tail) (s : List Char) :
    ∃ more, visits g (s ++ tail) = (visits g s).map (Visit.extend tail) ++ more := by
  let w : Walk := { cursor := Cursor.start s }
  have kinds : ∀ l text, Token.literal l text ∈ tokens g s → l.kind ≠ .code := fun l text => kind_of_mem_tokens
  have whole : w.cursor.rest = flatten (tokens g s) ++ [] := by
    rw [tokens, flatten_tokens_from, List.append_nil]
    rfl
  rw [visits_wordless blind.1, visits_wordless blind.1]
  change ∃ more, (w.extend tail).seen g (tokens g (s ++ tail)) = _
  rcases tokens_from_append_quiet legible quiet {} s with same | ⟨done, l, text, before, after⟩
  · refine ⟨((w.extend tail).across g (tokens g s)).seen g (tail.map .code), ?_⟩
    rw [tokens, same, Walk.seen_append]
    exact congrArg (· ++ _) (Walk.seen_extend tail whole kinds fun c rest _ => blind.sighted tail c rest)
  · -- The last literal has no visits, with or without the tail.
    have kind : l.kind ≠ .code := by
      refine kinds l text ?_
      rw [tokens, before]
      exact List.mem_append_right _ List.mem_cons_self
    have silent : ∀ (w : Walk) (l' : Literal) (text' : List Char), l'.kind = l.kind →
        w.seen g [.literal l' text'] = [] := by
      intro w l' text' same
      rw [Walk.seen_literal g w l' text' [] (by rw [same]; exact kind), Walk.seen_nil]
    have front : w.cursor.rest = flatten done ++ text := by
      rw [whole, tokens, before, flatten, List.flatMap_append, List.flatMap_singleton, List.append_nil]
      rfl
    refine ⟨[], ?_⟩
    rw [tokens, after, tokens, before, Walk.seen_append, Walk.seen_append, silent _ (l.lengthened tail) _ rfl,
      silent _ l _ rfl, List.append_nil, List.append_nil, List.append_nil]
    refine Walk.seen_extend tail front (fun l text member => kinds l text ?_) fun c rest _ => blind.sighted tail c rest
    rw [tokens, before]
    exact List.mem_append_left _ member

theorem matching_close_append_quiet (legible : g.Legible) (blind : g.Shortsighted) (quiet : g.Quiet tail)
    {s : List Char} {closing : Char} {v : Visit} (found : matchingClose g s closing = some v) :
    matchingClose g (s ++ tail) closing = some (v.extend tail) := by
  obtain ⟨more, visits⟩ := visits_append_quiet tail legible blind quiet s
  rw [matchingClose, Option.filter_eq_some_iff] at found
  rw [matchingClose, findOutside, visits, List.find?_append, List.find?_map]
  rw [findOutside] at found
  have first : (SnippetReview.visits g s).find? ((fun v => v.depth == 0 && isClosing v.char) ∘ Visit.extend tail) =
      some v := found.1
  rw [first, Option.map_some, Option.some_or, Option.filter_some]
  exact if_pos found.2

end

end SnippetReview
