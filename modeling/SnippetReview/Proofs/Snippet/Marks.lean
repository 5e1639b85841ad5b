import SnippetReview.Proofs.Lexing.CodePlaces
import SnippetReview.Proofs.Snippet.Standing

set_option autoImplicit false

namespace SnippetReview

open Text

-- The character that a token leaves to look back on. Blanks and comments leave none.
def Token.mark : Token → Option Char
  | .code c => if isAsciiBlank c then none else some c
  | .literal l text => if l.kind = .comment then none else text.getLast?

def lastMark : List Token → Option Char
  | [] => none
  | t :: rest => (lastMark rest).or t.mark

namespace Walk

variable {g : Grammar} {w : Walk} {t : Token} {later : List Char}

theorem cursor_token (stands : w.cursor.rest = t.text ++ later) (filled : t.IsFilled) :
    (w.passToken g t).cursor = ⟨w.cursor.offset + size t.text, t.text.getLast?.or w.cursor.before, later⟩ := by
  cases t with
  | code c =>
    rw [passToken, cursor_step (show w.cursor.rest = c :: later from stands), Token.text, size_singleton]
    rfl
  | literal l text => exact cursor_literal filled.1 stands

theorem previous_token (stands : w.cursor.rest = t.text ++ later) (filled : t.IsFilled) :
    (w.passToken g t).previous = t.mark.or w.previous := by
  cases t with
  | code c =>
    rw [passToken, previous_step (show w.cursor.rest = c :: later from stands), Token.mark]
    cases isAsciiBlank c <;> rfl
  | literal l text =>
    obtain ⟨kind, nonempty⟩ := filled
    have moved := cursor_literal (g := g) kind (show w.cursor.rest = text ++ later from stands)
    obtain ⟨front, c, rfl⟩ := List.eq_nil_or_concat text |>.resolve_left nonempty
    rw [List.concat_eq_append] at moved ⊢
    rw [Token.mark, List.getLast?_concat]
    rw [List.getLast?_concat] at moved
    unfold passToken passOver at moved ⊢
    simp only [Segment.ofLiteral] at moved ⊢
    -- A comment leaves nothing to look back on, any other literal its last character.
    cases same : l.kind with
    | code => exact absurd same kind
    | quoted | regex =>
      simp only [same] at moved ⊢
      rw [moved]
      rfl
    | comment => rfl

theorem seen_between {tokens : List Token} (stands : w.cursor.rest = flatten tokens ++ later)
    (filled : ∀ t ∈ tokens, t.IsFilled) {v : Visit} (member : v ∈ w.seen g tokens) :
    ∃ done more, tokens = done ++ .code v.char :: more ∧ v.offset = w.cursor.offset + size (flatten done) ∧
      v.previous = (lastMark done).or w.previous := by
  induction tokens generalizing w with
  | nil => exact absurd member List.not_mem_nil
  | cons t rest ih =>
    have here : w.cursor.rest = t.text ++ (flatten rest ++ later) := by rw [stands, flatten_cons, List.append_assoc]
    have others : ∀ t ∈ rest, t.IsFilled := fun u inside => filled u (List.mem_cons_of_mem t inside)
    have cursor := cursor_token (g := g) here (filled t List.mem_cons_self)
    have previous := previous_token (g := g) here (filled t List.mem_cons_self)
    -- What is seen behind the first token stands between the others.
    have behind : v ∈ (w.passToken g t).seen g rest → ∃ done more, t :: rest = done ++ .code v.char :: more ∧
        v.offset = w.cursor.offset + size (flatten done) ∧ v.previous = (lastMark done).or w.previous := by
      intro further
      obtain ⟨done, more, split, offset, back⟩ := ih (by rw [cursor]) others further
      refine ⟨t :: done, more, by rw [split, List.cons_append], ?_, ?_⟩
      · rw [offset, cursor, flatten_cons, size_append, Nat.add_assoc]
      · rw [back, previous, lastMark, Option.or_assoc]
    cases t with
    | code c =>
      rw [seen_code (show w.cursor.rest = c :: (flatten rest ++ later) from here), List.mem_cons] at member
      rcases member with rfl | further
      · exact ⟨[], rest, rfl, rfl, rfl⟩
      · exact behind further
    | literal l text =>
      rw [seen_literal g w l text rest (filled _ List.mem_cons_self).1] at member
      exact behind member

end Walk

theorem mem_holding {last : Option Visit} {vs : List Visit} {v : Visit} (member : v ∈ holding last vs) :
    ∃ u ∈ vs, v = { u with depth := v.depth } := by
  induction vs generalizing last with
  | nil => exact absurd member List.not_mem_nil
  | cons u rest ih =>
    rw [holding, List.mem_cons] at member
    rcases member with rfl | further
    · refine ⟨u, List.mem_cons_self, ?_⟩
      rw [u.held_eq]
    · obtain ⟨u', inside, same⟩ := ih further
      exact ⟨u', List.mem_cons_of_mem u inside, same⟩

theorem place_of_visits {g : Grammar} {text : List Char} {v : Visit} (member : v ∈ visits g text) :
    ∃ done more, tokens g text = done ++ .code v.char :: more ∧ v.offset = size (flatten done) ∧
      v.previous = lastMark done := by
  have whole : (Cursor.start text).rest = flatten (tokens g text) ++ [] := by
    rw [tokens, flatten_tokens_from, List.append_nil]
    rfl
  obtain ⟨u, seen, same⟩ : ∃ u ∈ Walk.seen g { cursor := Cursor.start text } (tokens g text), v = { u with depth := v.depth } := by
    rw [visits_eq] at member
    split at member
    · exact mem_holding member
    · exact ⟨v, member, rfl⟩
  obtain ⟨done, more, split, offset, previous⟩ :=
    Walk.seen_between (w := { cursor := Cursor.start text }) whole (fun _ => filled_of_mem_tokens) seen
  rw [same]
  refine ⟨done, more, split, ?_, ?_⟩
  · exact offset.trans (Nat.zero_add _)
  · rw [previous, Option.or_none]

end SnippetReview
