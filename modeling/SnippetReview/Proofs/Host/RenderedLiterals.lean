import Mathlib
import SnippetReview.Proofs.Host.RenderedValues
import SnippetReview.Proofs.Snippet.Receiving

set_option autoImplicit false

namespace SnippetReview

open Text

structure Literal.Reads (g : Grammar) (literal : List Char) (value : Value) (type : ValueType) : Prop where
  passes : Passes g isInert false literal
  inked : Inked literal
  line : '\n' ∉ literal
  ends : ∀ c ∈ literal.getLast?, continuationChars.contains c = false
  within : ∀ levels, Inferred.within g (levels + 1) literal = ⟨value, type, false⟩

namespace Host

theorem inked_of_ends {first last : Char} (inside : List Char) (head : isBlank first = false)
    (ends : isBlank last = false) : Inked (first :: (inside ++ [last])) := by
  refine ⟨List.cons_ne_nil _ _, ?_, ?_⟩
  · intro c same
    rw [List.head?_cons, Option.mem_some_iff] at same
    rwa [← same]
  · intro c same
    rw [← List.cons_append, List.getLast?_concat, Option.mem_some_iff] at same
    rwa [← same]

theorem mem_of_mem_intercalate {c : Char} {between : List Char} {pieces : List (List Char)}
    (member : c ∈ between.intercalate pieces) : c ∈ between ∨ ∃ piece ∈ pieces, c ∈ piece := by
  induction pieces with
  | nil => contradiction
  | cons piece rest ih =>
    cases rest with
    | nil => exact .inr ⟨piece, List.mem_singleton_self piece, by rwa [List.intercalate_singleton] at member⟩
    | cons next rest =>
      rw [List.intercalate_cons_cons, List.mem_append, List.mem_append] at member
      rcases member with (inside | sign) | later
      · exact .inr ⟨piece, List.mem_cons_self, inside⟩
      · exact .inl sign
      · exact (ih later).imp_right fun ⟨other, among, inside⟩ => ⟨other, List.mem_cons_of_mem piece among, inside⟩

theorem line_quoted (host : Host) {content : List Char} (plain : PlainText content) : '\n' ∉ host.quoted content := by
  have mark : '\n' ≠ host.mark := by cases host <;> decide
  have suffix : '\n' ∉ host.suffix := by cases host <;> decide
  intro member
  rw [quoted, List.mem_cons, List.mem_append, List.mem_cons] at member
  rcases member with same | inside | same | behind
  · exact mark same
  · exact (plain '\n' inside).2.2.2 rfl
  · exact mark same
  · exact suffix behind

theorem line_list (host : Host) {contents : List (List Char)} (plain : ∀ content ∈ contents, PlainText content) :
    '\n' ∉ host.list contents := by
  have fixed : '\n' ∉ host.listPrefix ∧ '\n' ≠ host.listOpening ∧ '\n' ∉ host.listPad ∧ '\n' ≠ host.listClosing := by
    cases host <;> decide
  obtain ⟨front, opening, pad, closing⟩ := fixed
  intro member
  rw [list, interior, join_element_parts, List.mem_append, List.mem_cons, List.mem_append, List.mem_append,
    List.mem_append, List.mem_singleton] at member
  rcases member with before | same | ((padding | inside) | padding) | same
  · exact front before
  · exact opening same
  · exact pad padding
  · rcases mem_of_mem_intercalate inside with sign | ⟨piece, among, inside⟩
    · exact absurd sign (by decide)
    · obtain ⟨content, member, rfl⟩ := List.mem_map.mp among
      exact line_quoted host (plain content member) inside
  · exact pad padding
  · exact closing same

theorem reads_quoted (host : Host) {content : List Char} (plain : PlainText content) :
    Literal.Reads host.grammar (host.quoted content) (.string (String.ofList content)) .string where
  passes := passes_quoted host plain
  inked := inked_quoted host content
  line := line_quoted host plain
  ends := by
    have last : ∀ c ∈ (host.mark :: host.suffix).getLast?, continuationChars.contains c = false := by
      cases host <;> decide
    intro c ends
    rw [quoted, ← List.cons_append, List.getLast?_append, List.getLast?_cons, Option.some_or, ← List.getLast?_cons] at ends
    exact last c ends
  within := fun levels => within_quoted host plain (levels + 1)

theorem inked_list (host : Host) (contents : List (List Char)) : Inked (host.list contents) := by
  have closing : isBlank host.listClosing = false := by cases host <;> decide
  have start : ∀ c ∈ (host.listPrefix ++ [host.listOpening]).head?, isBlank c = false := by cases host <;> decide
  obtain ⟨c, front, parts⟩ := List.exists_cons_of_ne_nil (show host.listPrefix ++ [host.listOpening] ≠ [] by simp)
  have whole : host.list contents = c :: ((front ++ host.interior contents) ++ [host.listClosing]) := by
    have regrouped : host.list contents =
        (host.listPrefix ++ [host.listOpening]) ++ (host.interior contents ++ [host.listClosing]) := by simp [list]
    rw [regrouped, parts, List.cons_append, List.append_assoc]
  rw [parts] at start
  rw [whole]
  exact inked_of_ends _ (start c rfl) closing

theorem reads_list (host : Host) {contents : List (List Char)} (plain : ∀ content ∈ contents, PlainText content) :
    Literal.Reads host.grammar (host.list contents) (.array (contents.map fun content => .string (String.ofList content)))
      .array where
  passes := (passes_list host plain).restrict false
  inked := inked_list host contents
  line := line_list host plain
  ends := by
    have last : continuationChars.contains host.listClosing = false := by cases host <;> decide
    intro c ends
    rw [list, ← List.cons_append, ← List.append_assoc, List.getLast?_concat, Option.mem_some_iff] at ends
    rwa [← ends]
  within := within_list host plain

theorem reads_wrapped {content : List Char} (plain : PlainText content) :
    Literal.Reads Grammar.rust ("Some(".toList ++ rust.quoted content ++ [')']) (.string (String.ofList content))
      .string := by
  have inner : Passes Grammar.rust isInert false (rust.quoted content) := passes_quoted rust plain
  have wrapper : Passes Grammar.rust isInert true "Some".toList := passes_signs (by decide) (by decide) (by decide)
  have call : Passes Grammar.rust isInert true ('(' :: (rust.quoted content ++ [')'])) :=
    passes_brackets inner rfl rfl (by decide) (by decide) rfl
  have whole : "Some(".toList ++ rust.quoted content ++ [')'] = "Some".toList ++ '(' :: (rust.quoted content ++ [')']) := by
    rw [show "Some(".toList = "Some".toList ++ ['('] from rfl, List.append_assoc, List.append_assoc]
    rfl
  have inked : Inked ("Some".toList ++ '(' :: (rust.quoted content ++ [')'])) :=
    inked_of_ends ('o' :: 'm' :: 'e' :: '(' :: rust.quoted content) (by decide) (by decide)
  have closes : ∀ c, isInert c = true → isClosing c = false := by
    intro c inert
    unfold isInert at inert
    rw [Bool.and_eq_true, Bool.not_eq_true'] at inert
    exact inert.1
  obtain ⟨v, matched, offset, ends⟩ : ∃ v, matchingClose Grammar.rust (rust.quoted content ++ [')']) ')' = some v ∧
      v.offset = size (rust.quoted content) ∧ v.rest = [] :=
    matching_close_passage inner (by decide) (by decide) (by decide) closes
  have unwraps : Inferred.unwrapOptional Grammar.rust ("Some".toList ++ '(' :: (rust.quoted content ++ [')'])) =
      rust.quoted content := by
    have behind : trimStart (("Some".toList ++ '(' :: (rust.quoted content ++ [')'])).drop "Some".toList.length) =
        '(' :: (rust.quoted content ++ [')']) := by
      rw [List.drop_left]
      rfl
    have starts : "Some".toList.isPrefixOf ("Some".toList ++ '(' :: (rust.quoted content ++ [')'])) = true :=
      List.isPrefixOf_iff_prefix.mpr (List.prefix_append _ _)
    have wrapper : Grammar.rust.optionalWrapper = some "Some".toList := rfl
    unfold Inferred.unwrapOptional
    simp only [wrapper, starts, behind, matched, ends, offset, take_bytes_append, if_true, List.isEmpty_nil]
    exact trim_inked (inked_quoted rust content)
  have bare : Inferred.unwrapOptional Grammar.rust (rust.quoted content) = rust.quoted content :=
    Inferred.bare_of_wrapper fun wrapper member => (unwrapped rust wrapper member _).1
  rw [whole]
  refine ⟨(wrapper.append call (.inl rfl)).restrict false, inked, ?line, ?ends, fun levels => ?within⟩
  case line =>
    intro member
    rw [List.mem_append, List.mem_cons, List.mem_append, List.mem_singleton] at member
    rcases member with before | same | inside | same
    · exact absurd before (by decide)
    · exact absurd same (by decide)
    · exact line_quoted rust plain inside
    · exact absurd same (by decide)
  case ends =>
    intro c ends
    rw [← List.cons_append, ← List.append_assoc, List.getLast?_concat, Option.mem_some_iff] at ends
    rw [← ends]
    decide
  case within =>
    rw [Inferred.within_unwrapped unwraps bare]
    exact within_quoted rust plain (levels + 1)

theorem reads_boolean (host : Host) (value : Bool) :
    Literal.Reads host.grammar (host.renderBoolean value).toList (.boolean value) .boolean := by
  have spec : let word := (host.renderBoolean value).toList
      word.all isWordish = true ∧ word.all isInert = true ∧ word ∉ host.grammar.reserved ∧ isPlainKey word = true := by
    cases host <;> cases value <;> decide +kernel
  obtain ⟨wordish, inert, unreserved, plain⟩ := spec
  have line : '\n' ∉ (host.renderBoolean value).toList := by
    intro member
    exact absurd (List.all_eq_true.mp inert '\n' member) (by decide)
  have ends : ∀ c ∈ (host.renderBoolean value).toList.getLast?, continuationChars.contains c = false := by
    intro c last
    rw [Bool.eq_false_iff]
    intro goesOn
    have wordC := List.all_eq_true.mp wordish c (List.mem_of_getLast? last)
    have noWord : ∀ d ∈ continuationChars, isWordish d = false := by decide
    rw [noWord c (List.contains_iff_mem.mp goesOn)] at wordC
    contradiction
  refine ⟨passes_word host.assigns.words wordish inert unreserved, inked_of_plain_key plain, line, ends, fun levels => ?_⟩
  rw [Inferred.within]
  cases host <;> cases value <;> rfl

theorem reads_literal (host : Host) (v : PlainValue) :
    Literal.Reads host.grammar (host.renderLiteral v.example').toList v.value v.type := by
  cases v with
  | string text plain =>
    have same : String.ofList text.toList = text := String.ofList_toList
    unfold PlainValue.example' PlainValue.value PlainValue.type renderLiteral
    by_cases wraps : host = rust
    · have literal : ("Some(" ++ rust.renderString text ++ ")").toList = "Some(".toList ++ rust.quoted text.toList ++ [')'] := by
        rw [String.toList_append, String.toList_append, render_string_eq]
        rfl
      have read := reads_wrapped plain
      rw [same] at read
      simp only [wraps, if_true, literal]
      exact read
    · have read := reads_quoted host plain
      rw [same] at read
      simp only [wraps, if_false, render_string_eq]
      exact read
  | strings items plain =>
    have every : ∀ content ∈ items.map String.toList, PlainText content := by
      intro content member
      obtain ⟨item, inside, rfl⟩ := List.mem_map.mp member
      exact plain item inside
    have values : (items.map String.toList).map (fun content => Value.string (String.ofList content)) =
        items.map Value.string := by
      rw [List.map_map]
      exact List.map_congr_left fun item _ => by rw [Function.comp_apply, String.ofList_toList]
    have read := reads_list host every
    rw [values] at read
    unfold PlainValue.example' PlainValue.value PlainValue.type renderLiteral
    simp only [render_list_eq]
    exact read
  | boolean value => exact reads_boolean host value

end Host

end SnippetReview
