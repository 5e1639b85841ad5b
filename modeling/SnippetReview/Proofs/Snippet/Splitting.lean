import SnippetReview.Proofs.Snippet.Pieces
import SnippetReview.Proofs.Text.Trimming
import SnippetReview.Snippet.Statement

set_option autoImplicit false

namespace SnippetReview

open Text

structure Part where
  lead : List Char := []
  body : List Char
  trail : List Char := []

namespace Part

def text (p : Part) : List Char := p.lead ++ p.body ++ p.trail

structure Neat (p : Part) : Prop where
  lead : ∀ c ∈ p.lead, isBlank c = true
  trail : ∀ c ∈ p.trail, isBlank c = true
  body : p.body = [] ∨ Inked p.body

def join (separator : Char) : Part → List Part → List Char
  | p, [] => p.text
  | p, q :: rest => p.text ++ separator :: join separator q rest

def piece (offset : Nat) (p : Part) (later : List Char) : List Slice :=
  if p.body = [] then [] else [Slice.place (offset + size p.lead) p.body (p.trail ++ later)]

def pieces (separator : Char) (offset : Nat) : Part → List Part → List Slice
  | p, [] => p.piece offset []
  | p, q :: rest =>
    p.piece offset (separator :: join separator q rest) ++ pieces separator (offset + size p.text + 1) q rest

theorem keep_trimmed_eq {p : Part} (neat : p.Neat) (offset : Nat) (later : List Char) (done : List Slice) :
    keepTrimmed (Slice.place offset p.text later) done = (p.piece offset later).reverse ++ done := by
  unfold keepTrimmed piece text
  by_cases empty : p.body = []
  · have blank : ∀ c ∈ p.lead ++ p.body ++ p.trail, isBlank c = true := by
      intro c member
      rw [empty, List.append_nil, List.mem_append] at member
      exact member.elim (neat.lead c) (neat.trail c)
    simp only [Slice.trim_place_blanks blank, if_true]
    rw [if_pos empty]
    rfl
  · have inked := neat.body.resolve_left empty
    have sized : size p.body ≠ 0 := fun zero => empty (size_eq_zero_iff.mp zero)
    simp only [Slice.trim_place neat.lead neat.trail inked, Slice.size_place, sized, if_false, empty]
    rfl

end Part

section

variable {g : Grammar} {separators : List Char} {separator : Char}

structure Separates (g : Grammar) (separators : List Char) (separator : Char) (parts : List Part) : Prop where
  member : separators.contains separator = true
  signs : ∀ c ∈ separators, isIdentChar c = false
  silent : g.silent [separator] = true
  flat : g.isFlat separator = true
  breaks : isBreak separator = true
  ascii : separator.utf8Size = 1
  neat : ∀ p ∈ parts, p.Neat
  passes : ∀ p ∈ parts, Passes g (fun c => !separators.contains c) false p.text
  -- A line break after one of these characters would not separate.
  ends : separator = '\n' → ∀ p ∈ parts, ∃ c, lastInk p.text = some c ∧ continuationChars.contains c = false

theorem Separates.tail {p : Part} {rest : List Part} (separates : Separates g separators separator (p :: rest)) :
    Separates g separators separator rest where
  member := separates.member
  signs := separates.signs
  silent := separates.silent
  flat := separates.flat
  breaks := separates.breaks
  ascii := separates.ascii
  neat := fun q member => separates.neat q (List.mem_cons_of_mem p member)
  passes := fun q member => separates.passes q (List.mem_cons_of_mem p member)
  ends := fun feed q member => separates.ends feed q (List.mem_cons_of_mem p member)

def cutsHere (separators : List Char) (v : Visit) : Bool := v.depth == 0 && separators.contains v.char && !v.continues

-- No visit of a part cuts the text.
theorem filter_seen_part {s later : List Char} {tokens : List Token} {w : Walk} (level : w.nesting.depth = 0)
    (moves : Moves g (fun c => !separators.contains c) s later tokens w) :
    (w.seen g tokens).filter (cutsHere separators) = [] := by
  rw [List.filter_eq_nil_iff]
  intro v member cuts
  unfold cutsHere at cuts
  rw [Bool.and_eq_true, Bool.and_eq_true, beq_iff_eq] at cuts
  rcases moves.seen v member with deeper | ⟨_, other⟩
  · omega
  · rw [cuts.1.2] at other
    contradiction

theorem pieces_from_parts (base : Nat) (p : Part) (rest : List Part)
    (separates : Separates g separators separator (p :: rest)) (x : Context) (w : Walk) (done : List Slice)
    (stands : w.cursor.rest = Part.join separator p rest) (level : w.nesting.depth = 0)
    (angles : w.nesting.angles = 0) :
    piecesFrom base (w.cursor.offset + size (Part.join separator p rest)) done w.cursor.offset
        (Part.join separator p rest)
        ((w.seen g (tokensFrom g x (Part.join separator p rest))).filter (cutsHere separators)) =
      done.reverse ++ Part.pieces separator (base + w.cursor.offset) p rest := by
  induction rest generalizing p x w done with
  | nil =>
    obtain ⟨tokens, reads⟩ := separates.passes p List.mem_cons_self
    have follows : Follows false [] := .inr (by simp)
    have split := reads.split x [] follows
    have moves := reads.moves w [] follows (by rw [stands, Part.join, List.append_nil]) angles
    rw [List.append_nil, tokens_from_nil, List.append_nil] at split
    have kept := Part.keep_trimmed_eq (separates.neat p List.mem_cons_self) (base + w.cursor.offset) [] done
    unfold Slice.place at kept
    rw [List.append_nil] at kept
    rw [Part.join, split, filter_seen_part level moves, piecesFrom, Nat.add_sub_cancel_left, kept, Part.pieces,
      List.reverse_append, List.reverse_reverse]
  | cons q rest ih =>
    obtain ⟨tokens, reads⟩ := separates.passes p List.mem_cons_self
    have follows : Follows false (separator :: Part.join separator q rest) := by
      right
      intro c same
      rw [List.head?_cons, Option.mem_some_iff] at same
      rw [← same]
      exact separates.breaks
    have split := reads.split x _ follows
    have moves := reads.moves w _ follows stands angles
    have here : (w.across g tokens).cursor.rest = separator :: Part.join separator q rest := by rw [moves.cursor]
    have angles' : (w.across g tokens).nesting.angles = 0 := by rw [moves.nesting, angles]
    have kept := nesting_step_flat here separates.flat angles'
    have cursor := Walk.cursor_step (g := g) here
    have silent := separates.silent
    rw [Grammar.silent, Bool.and_eq_true] at silent
    have code := tokens_from_code (literal_of_clear_at silent.1 (Part.join separator q rest) (tokens.foldl Token.after x))
    have cuts : cutsHere separators ((w.across g tokens).visitAt g separator (Part.join separator q rest)) = true := by
      unfold cutsHere Walk.visitAt Visit.continues
      simp only [separates.member, moves.nesting, level, beq_self_eq_true, Bool.and_self, Bool.true_and]
      by_cases feed : separator = '\n'
      · obtain ⟨c, last, goesOn⟩ := separates.ends feed p List.mem_cons_self
        simp only [moves.previous, last, Option.some_or, Option.map_some, Option.getD_some, goesOn, Bool.and_false,
          Bool.not_false]
      · rw [beq_eq_false_iff_ne.mpr feed, Bool.false_and, Bool.not_false]
    have next := ih q separates.tail ((tokens.foldl Token.after x).afterCode separator) ((w.across g tokens).step g)
      (keepTrimmed (Slice.place (base + w.cursor.offset) p.text (separator :: Part.join separator q rest)) done)
      (by rw [cursor]) (by rw [kept, moves.nesting, level]) (by rw [kept, angles'])
    rw [Part.join, split, Walk.seen_append, List.filter_append, filter_seen_part level moves, List.nil_append]
    simp only [List.nil_append] at code
    rw [code, Walk.seen_code here, List.filter_cons_of_pos cuts, piecesFrom]
    rw [cursor, moves.cursor, separates.ascii] at next
    simp only at next
    have stop : w.cursor.offset + size (p.text ++ separator :: Part.join separator q rest) =
        w.cursor.offset + size p.text + 1 + size (Part.join separator q rest) := by
      rw [size_append, size_cons, separates.ascii]
      omega
    have where' : ((w.across g tokens).visitAt g separator (Part.join separator q rest)).offset =
        w.cursor.offset + size p.text := by
      unfold Walk.visitAt
      rw [moves.cursor]
    rw [where', Nat.add_sub_cancel_left, stop]
    refine next.trans ?_
    rw [Part.keep_trimmed_eq (separates.neat p List.mem_cons_self), Part.pieces, List.reverse_append,
      List.reverse_reverse, List.append_assoc, Nat.add_assoc, Nat.add_assoc, Nat.add_assoc]

theorem split_parts (base : Nat) {p : Part} {rest : List Part}
    (separates : Separates g separators separator (p :: rest)) :
    split g base (Part.join separator p rest) separators = Part.pieces separator base p rest := by
  have whole := pieces_from_parts base p rest separates {} { cursor := Cursor.start (Part.join separator p rest) } [] rfl rfl rfl
  simp only [Cursor.start, Nat.zero_add, List.reverse_nil, List.nil_append, Nat.add_zero] at whole
  have outer : ∀ v : Visit, v.isInner = true → cutsHere separators v = false := by
    intro v inner
    refine Bool.eq_false_iff.mpr fun cut => ?_
    unfold cutsHere at cut
    rw [Bool.and_eq_true, Bool.and_eq_true, List.contains_iff_mem] at cut
    rw [Visit.isInner, separates.signs _ cut.1.2, Bool.and_false] at inner
    contradiction
  have cut := filter_visits outer g (Part.join separator p rest)
  unfold cutsHere at cut whole
  rw [split, cuts, cut]
  exact whole

end

theorem split_nil (g : Grammar) (base : Nat) (separators : List Char) : split g base [] separators = [] := by
  have none : visits g [] = [] := by
    rw [visits_eq, SnippetReview.tokens, tokens_from_nil, Walk.seen_nil]
    split <;> rfl
  rw [split, cuts, none]
  rfl

theorem merge_bound {g : Grammar} {items : List Slice}
    (alone : ∀ item ∈ items, (boundText? g item.text).isSome = true ∧ awaitsBody g item.text = false) :
    mergeContinuations g items = items := by
  have fold : ∀ done : List Slice, (∀ item ∈ done, awaitsBody g item.text = false) →
      items.foldl (mergeInto g) done = items.reverse ++ done := by
    induction items with
    | nil => exact fun done _ => rfl
    | cons item rest ih =>
      intro done finished
      obtain ⟨bound, across⟩ := alone item List.mem_cons_self
      have step : mergeInto g done item = item :: done := by
        cases done with
        | nil => rfl
        | cons last earlier =>
          have none : (boundText? g item.text).isNone = false := by rw [Option.isNone_eq_false_iff, bound]
          simp [mergeInto, none, finished last List.mem_cons_self]
      rw [List.foldl_cons, step, ih (fun other member => alone other (List.mem_cons_of_mem item member)),
        List.reverse_cons, List.append_assoc]
      · rfl
      · intro other member
        rw [List.mem_cons] at member
        rcases member with rfl | earlier
        · exact across
        · exact finished other earlier
  rw [mergeContinuations, fold [] (by simp), List.append_nil, List.reverse_reverse]

end SnippetReview
