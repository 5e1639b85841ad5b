import SnippetReview.Proofs.Snippet.Pieces
import SnippetReview.Snippet.Statement

set_option autoImplicit false

namespace SnippetReview

open Text

theorem Visit.ident_of_inner {v : Visit} (inner : v.isInner = true) : isIdentChar v.char = true := by
  rw [isInner, Bool.and_eq_true] at inner
  exact inner.2

theorem Visit.not_closing_of_inner {v : Visit} (inner : v.isInner = true) : isClosing v.char = false := by
  have ident := ident_of_inner inner
  refine Bool.eq_false_iff.mpr fun closing => ?_
  simp only [isClosing, Bool.or_eq_true, beq_iff_eq] at closing
  rcases closing with (same | same) | same
  all_goals
    rw [same] at ident
    exact absurd ident (by decide)

def tokenAt (token : List Char) (v : Visit) : Bool :=
  token.isPrefixOf (v.char :: v.rest) && !isLookalike token v.before (v.rest.drop (token.length - 1)).head?

theorem token_at_other {c : Char} {v : Visit} (more : List Char) (different : c ≠ v.char) :
    tokenAt (c :: more) v = false := by
  rw [tokenAt, List.isPrefixOf_cons_cons, beq_eq_false_iff_ne.mpr different, Bool.false_and, Bool.false_and]

theorem token_at_inner {c : Char} {v : Visit} (more : List Char) (sign : isIdentChar c = false) (inner : v.isInner = true) :
    tokenAt (c :: more) v = false := by
  apply token_at_other
  rintro rfl
  rw [Visit.ident_of_inner inner] at sign
  contradiction

section

variable {g : Grammar} {base : Char → Bool} {free : Bool} {s : List Char}

theorem find_outside_passage (passes : Passes g base free s) {c : Char} {ahead : List Char} (later : List Char)
    (joins : free = true ∨ isBreak c = true) (clear : g.clearAt (c :: ahead) = true) (accepts : Visit → Bool)
    (outer : ∀ v : Visit, v.isInner = true → accepts v = false)
    (rejects : ∀ v : Visit, base v.char = true → accepts v = false)
    (accepted : ∀ previous word, accepts ⟨size s, s.getLast?, c, ahead ++ later, 0, previous, word⟩ = true) :
    ∃ v, findOutside g (s ++ c :: (ahead ++ later)) accepts = some v ∧ v.offset = size s ∧ v.char = c ∧
      v.rest = ahead ++ later := by
  obtain ⟨tokens, reads⟩ := passes
  have follows : Follows free (c :: (ahead ++ later)) := joins.imp id fun breaks d same => by
    rw [List.head?_cons, Option.mem_some_iff] at same
    rwa [← same]
  let w : Walk := { cursor := Cursor.start (s ++ c :: (ahead ++ later)) }
  have moves := reads.moves w _ follows rfl rfl
  have here : (w.across g tokens).cursor.rest = c :: (ahead ++ later) := by rw [moves.cursor]
  -- What the passage shows is inside brackets or rejected, so that the search goes on to the sign behind it.
  have skipped : (w.seen g tokens).find? (fun v => v.depth == 0 && accepts v) = none := by
    rw [List.find?_eq_none]
    intro v member outside
    rw [Bool.and_eq_true, beq_iff_eq] at outside
    rcases moves.seen v member with deeper | ⟨_, level⟩
    · exact Nat.not_lt_zero _ (outside.1 ▸ deeper)
    · rw [rejects v level] at outside
      exact Bool.false_ne_true outside.2
  have found : findOutside g (s ++ c :: (ahead ++ later)) accepts = some ((w.across g tokens).visitAt g c (ahead ++ later)) := by
    rw [find_outside_eq outer, SnippetReview.tokens, reads.split {} _ follows,
      tokens_from_code (literal_of_clear_at clear later _), Walk.seen_append, List.find?_append, skipped,
      Walk.seen_code here, List.find?_cons_of_pos]
    · rfl
    · unfold Walk.visitAt
      rw [moves.cursor, moves.nesting]
      have offset : w.cursor.offset + size s = size s := Nat.zero_add _
      have before : s.getLast?.or w.cursor.before = s.getLast? := by cases s.getLast? <;> rfl
      simp only [offset, before]
      exact accepted _ _
  refine ⟨_, found, ?_, rfl, rfl⟩
  unfold Walk.visitAt
  rw [moves.cursor]
  exact Nat.zero_add _

theorem find_token_passage (passes : Passes g base free s) {c : Char} {more ahead later : List Char}
    (joins : free = true ∨ isBreak c = true) (clear : g.clearAt (c :: (more ++ ahead)) = true)
    (sign : isIdentChar c = false) (absent : base c = false) (plain : isLookalike (c :: more) s.getLast? (ahead ++ later).head? = false) :
    ∃ v, findToken g (s ++ c :: (more ++ ahead ++ later)) (c :: more) = some v ∧ v.offset = size s ∧
      v.rest = more ++ ahead ++ later := by
  have rejects : ∀ v : Visit, base v.char = true → tokenAt (c :: more) v = false := by
    intro v level
    apply token_at_other
    rintro rfl
    rw [level] at absent
    contradiction
  have accepted : ∀ previous word,
      tokenAt (c :: more) ⟨size s, s.getLast?, c, more ++ ahead ++ later, 0, previous, word⟩ = true := by
    intro previous word
    have after : ((more ++ ahead ++ later).drop ((c :: more).length - 1)).head? = (ahead ++ later).head? := by
      rw [List.length_cons, Nat.add_sub_cancel, List.append_assoc, List.drop_left]
    simp only [tokenAt, after, plain]
    rw [List.isPrefixOf_iff_prefix.mpr (List.cons_prefix_cons.mpr ⟨rfl, by simp⟩)]
    rfl
  obtain ⟨v, found, offset, _, rest⟩ := find_outside_passage passes later joins clear (tokenAt (c :: more))
    (fun _ inner => token_at_inner more sign inner) rejects accepted
  exact ⟨v, found, offset, rest⟩

theorem find_token_none (passes : Passes g base free s) {c : Char} {more : List Char} (sign : isIdentChar c = false)
    (absent : base c = false) :
    findToken g s (c :: more) = none := by
  obtain ⟨tokens, reads⟩ := passes
  have follows : Follows free [] := .inr (by simp)
  let w : Walk := { cursor := Cursor.start s }
  have split := reads.split {} [] follows
  have moves := reads.moves w [] follows (List.append_nil s).symm rfl
  rw [List.append_nil, tokens_from_nil, List.append_nil] at split
  change findOutside g s (tokenAt (c :: more)) = none
  rw [find_outside_eq fun _ inner => token_at_inner more sign inner, SnippetReview.tokens, split, List.find?_eq_none]
  intro v member holds
  rw [Bool.and_eq_true, beq_iff_eq] at holds
  rcases moves.seen v member with deeper | ⟨_, inside⟩
  · exact Nat.not_lt_zero _ (holds.1 ▸ deeper)
  · have different : c ≠ v.char := by
      rintro rfl
      rw [absent] at inside
      contradiction
    rw [token_at_other more different] at holds
    exact Bool.false_ne_true holds.2

theorem matching_close_passage (passes : Passes g base free s) {closing : Char} {later : List Char}
    (closes : isClosing closing = true) (breaks : isBreak closing = true) (clear : g.clearAt [closing] = true)
    (inside : ∀ c, base c = true → isClosing c = false) :
    ∃ v, matchingClose g (s ++ closing :: later) closing = some v ∧ v.offset = size s ∧ v.rest = later := by
  obtain ⟨v, found, offset, char, rest⟩ := find_outside_passage passes later (.inr breaks) clear
    (fun v => isClosing v.char) (fun _ inner => Visit.not_closing_of_inner inner) (fun v level => inside v.char level) (fun _ _ => closes)
  refine ⟨v, ?_, offset, rest⟩
  rw [List.nil_append] at found
  rw [matchingClose, found, Option.filter_some, char, beq_self_eq_true, if_pos rfl]

end

end SnippetReview
