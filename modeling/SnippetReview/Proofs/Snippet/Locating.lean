import SnippetReview.Proofs.Pattern.Places
import SnippetReview.Proofs.Snippet.Placing

set_option autoImplicit false

namespace SnippetReview

open Text

namespace Block

variable {g : Grammar} {stripped : List Char}

theorem body_size_parts {anchorText body : List Char} {ending : BodyEnd} {size : Nat}
    (found : bodySize? g anchorText body ending = some size) :
    ∃ piece later, body = piece ++ later ∧ size = Text.size piece := by
  have visited : ∀ {accepts : Visit → Bool} {v : Visit}, findOutside g body accepts = some v →
      ∃ piece later, body = piece ++ later ∧ v.offset = Text.size piece := by
    intro accepts v outside
    obtain ⟨done, stands⟩ := stands_of_outside outside
    exact ⟨done, v.char :: v.rest, stands.text, stands.offset⟩
  cases ending with
  | delimiter closing =>
    obtain ⟨v, closes, rfl⟩ := Option.map_eq_some_iff.mp found
    obtain ⟨_, done, stands⟩ := stands_of_close closes
    exact ⟨done, v.char :: v.rest, stands.text, stands.offset⟩
  | keyword word =>
    obtain ⟨v, outside, rfl⟩ := Option.map_eq_some_iff.mp found
    exact visited outside
  | statement =>
    rw [bodySize?] at found
    split at found
    · obtain rfl := Option.some.inj found
      cases stop : findOutside g body fun v => v.char == '\n' && (v.previous.map (· != ',')).getD false with
      | none => exact ⟨body, [], (List.append_nil body).symm, rfl⟩
      | some v => exact visited stop
    · obtain rfl := Option.some.inj found
      exact ⟨[], body, rfl, rfl⟩

theorem unwrap_cases (g : Grammar) (body : Slice) :
    unwrapList g body = body ∨ ∃ lead inside later, (∀ b ∈ lead, isBlank b = true) ∧
      body.text = lead ++ ['['] ++ inside ++ later ∧
        unwrapList g body = Slice.place (body.start + Text.size (lead ++ ['['])) inside later := by
  unfold unwrapList
  dsimp only
  split
  next inner shape =>
    split
    next v closes =>
      split
      next =>
        obtain ⟨lead, blank, trimmed⟩ := trim_start_split body.text
        obtain ⟨_, done, stands⟩ := stands_of_close closes
        have one : '['.utf8Size = 1 := by decide
        rw [shape] at trimmed
        have opened : Text.size body.text - Text.size inner = Text.size (lead ++ ['[']) := by
          rw [trimmed, size_append, size_append, size_cons, size_singleton]
          omega
        refine .inr ⟨lead, done, v.char :: v.rest, blank, ?_, ?_⟩
        · rw [trimmed, stands.text]
          simp only [List.append_assoc, List.cons_append, List.nil_append]
        · rw [opened, Slice.place, ← stands.text, stands.offset]
      next => exact .inl rfl
    next => exact .inl rfl
  next => exact .inl rfl

theorem lies_of_unwrap {body : Slice} (sized : body.size = Text.size body.text) :
    (unwrapList g body).LiesIn body.start body.text := by
  rcases unwrap_cases g body with same | ⟨lead, inside, later, _, parts, same⟩
  · rw [same]
    refine ⟨[], body.text, [], body.tail.drop (charsWithin body.size body.tail), by simp, ?_⟩
    rw [Slice.place, ← sized, Slice.text, takeBytes, List.take_append_drop]
    rfl
  · exact ⟨lead ++ ['['], inside, later, later, parts, same⟩

theorem first_anchor_mem {code : CodeMap} {anchor : Anchor} {found : Pattern.Match}
    (first : firstAnchor? g code stripped = some (anchor, found)) :
    anchor ∈ g.anchors ∧ found ∈ anchor.pattern.all stripped ∧ code.isCode found.start.offset = true := by
  obtain ⟨anchor', known, chosen⟩ := List.exists_of_findSome?_eq_some first
  obtain ⟨found', sought, same⟩ := Option.map_eq_some_iff.mp chosen
  obtain ⟨rfl, rfl⟩ := Prod.mk.inj same
  have inCode := @List.find?_some _ (fun m : Pattern.Match => code.isCode m.start.offset) _ _ sought
  exact ⟨known, List.mem_of_find?_eq_some sought, inCode⟩

theorem lies_of_anchor {anchor : Anchor} {found : Pattern.Match} (inside : found.In stripped) {block : Block}
    (opens : ofAnchor g stripped anchor found = .ok block) : block.body.LiesIn 0 stripped := by
  unfold ofAnchor at opens
  dsimp only at opens
  cases size : bodySize? g found.text found.stop.rest anchor.bodyEnd with
  | none =>
    rw [size] at opens
    contradiction
  | some n =>
    obtain ⟨piece, later, parts, same⟩ := body_size_parts size
    obtain ⟨front, split, place⟩ := inside.2
    have lies : Slice.LiesIn 0 stripped ⟨found.stop.offset, n, found.stop.rest⟩ :=
      ⟨front, piece, later, later, by rw [split, parts, List.append_assoc],
        by rw [Slice.place, ← parts, Nat.zero_add, place, same]⟩
    rw [size] at opens
    obtain rfl := Except.ok.inj opens
    dsimp only
    -- A list around the body of a statement is taken off it.
    split
    · exact (lies_of_unwrap lies.size_eq).trans lies
    · exact lies

theorem lies_of_literal {opening closing : Char} {block : Block} (found : ofLiteral? g stripped opening closing = some block) :
    block.body.LiesIn 0 stripped := by
  obtain ⟨lead, inner, v, done, _, split, _, stands, rfl⟩ := of_literal_some found
  refine ⟨lead ++ [opening], done, v.char :: v.rest, v.char :: v.rest, ?_, ?_⟩
  · rw [split, stands.text]
    simp only [List.append_assoc, List.cons_append, List.nil_append]
  · rw [Slice.place, ← stands.text, stands.offset, size_append, size_singleton, Nat.zero_add]

theorem lies_of_statements {block : Block} (found : ofStatements? g stripped = some block) :
    block.body.LiesIn 0 stripped := by
  have whole : (Slice.ofText 0 stripped).LiesIn 0 stripped :=
    ⟨[], stripped, [], [], by simp, by rw [Slice.place, List.append_nil]; rfl⟩
  unfold ofStatements? at found
  dsimp only at found
  split at found
  · contradiction
  · split at found
    · contradiction
    · split at found
      · obtain rfl := Option.some.inj found
        exact whole
      · contradiction

theorem lies_of_locate {host : Host} {block : Block} (located : locate host stripped = .ok block) :
    block.body.LiesIn 0 stripped := by
  unfold locate at located
  dsimp only at located
  split at located
  next anchor found first => exact lies_of_anchor (Pattern.all_in (first_anchor_mem first).2.1) located
  next =>
    split at located
    next bare =>
      obtain rfl := Except.ok.inj located
      unfold ofBare? at bare
      split at bare
      · contradiction
      · exact lies_of_literal bare
      · exact lies_of_statements bare
    next => contradiction

end Block

end SnippetReview
