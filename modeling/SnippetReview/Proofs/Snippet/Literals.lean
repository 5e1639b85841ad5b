import SnippetReview.Proofs.Pattern.Anchored
import SnippetReview.Proofs.Snippet.Finding
import SnippetReview.Proofs.Snippet.Splitting
import SnippetReview.Snippet.Inference

set_option autoImplicit false

namespace SnippetReview

open Text

def PlainText (s : List Char) : Prop := ∀ c ∈ s, c ≠ '"' ∧ c ≠ '\'' ∧ c ≠ '\\' ∧ c ≠ '\n'

instance (s : List Char) : Decidable (PlainText s) :=
  inferInstanceAs (Decidable (∀ c ∈ s, c ≠ '"' ∧ c ≠ '\'' ∧ c ≠ '\\' ∧ c ≠ '\n'))

namespace Inferred

-- A text that is no word of the language, no function and no number, and has no string prefix.
def plain (g : Grammar) (s : List Char) : Bool :=
  !g.nullWords.contains s && !g.trueWords.contains s && !g.falseWords.contains s
    && (g.callables.all fun p => p.isAnchored && (p.ends ⟨Cursor.start s, none⟩).isEmpty)
    && g.number.isAnchored && (g.number.ends ⟨Cursor.start s, none⟩).isEmpty
    && (g.stringPrefixes.find? (hasStringPrefix s)).isNone

section

variable {g : Grammar} {s : List Char}

theorem scalar_of_plain (isPlain : plain g s = true) :
    scalar? g s = ((string? g s).or (symbol? g s)).map fun content => ⟨.string (String.ofList content), .string, false⟩ := by
  unfold plain at isPlain
  simp only [Bool.and_eq_true, Bool.not_eq_true', List.all_eq_true] at isPlain
  obtain ⟨⟨⟨⟨⟨⟨null, true'⟩, false'⟩, callables⟩, anchored⟩, ends⟩, _⟩ := isPlain
  have uncallable : g.callables.any (·.matchesIn s) = false := by
    rw [List.any_eq_false]
    intro p member
    have fails := callables p member
    simp [Pattern.matchesIn, Pattern.find_none_of_ends fails.1 fails.2]
  have noNumber : number? g s = none := by
    simp [number?, Pattern.find_none_of_ends anchored ends]
  unfold scalar?
  simp only [null, true', false', uncallable, noNumber, Bool.false_eq_true, if_false]

theorem without_prefix_of_plain (isPlain : plain g s = true) : withoutStringPrefix g s = s := by
  unfold plain at isPlain
  rw [Bool.and_eq_true, Option.isNone_iff_eq_none] at isPlain
  rw [withoutStringPrefix, isPlain.2]

end

section

variable {g : Grammar} {q : Char}

theorem string_quoted (quotes : g.QuotesWith q) {content suffix : List Char} (inside : PlainText content)
    (ends : suffix.head? ≠ some q) (trimmed : trim suffix = suffix)
    (known : (suffix.isEmpty || g.stringSuffixes.contains suffix) = true)
    (isPlain : plain g (q :: (content ++ q :: suffix)) = true) :
    string? g (q :: (content ++ q :: suffix)) = some content := by
  have unescaped : ∀ c ∈ content, c ≠ q ∧ c ≠ '\\' ∧ c ≠ '\n' := by
    intro c member
    obtain ⟨double, single, backslash, feed⟩ := inside c member
    refine ⟨?_, backslash, feed⟩
    rcases quotes.mark with rfl | rfl
    · exact double
    · exact single
  have whole : q :: (content ++ q :: suffix) = q :: (content ++ [q]) ++ suffix := by simp
  have length : (q :: (content ++ [q])).length = content.length + 2 := by simp
  have found := literal_quoted_plain quotes unescaped ends {}
  rw [whole] at found
  have read : segments g (q :: (content ++ q :: suffix)) =
      Segment.ofLiteral 0 ⟨.quoted, content.length + 2, 1, 1⟩ (q :: (content ++ [q])) ::
        Segment.ofTokens (0 + size (q :: (content ++ [q]))) []
          (tokensFrom g (.afterLiteral .quoted (q :: (content ++ [q]))) suffix) := by
    rw [segments_eq, whole, tokens, tokens_from_append (List.cons_ne_nil _ _) length found]
    rfl
  have rest : trim ((q :: (content ++ q :: suffix)).drop (q :: (content ++ [q])).length) = suffix := by
    rw [whole, List.drop_left, trimmed]
  have kept : (Segment.ofLiteral 0 ⟨.quoted, content.length + 2, 1, 1⟩ (q :: (content ++ [q]))).content = content := by
    unfold Segment.content Segment.ofLiteral
    simp only [length, List.drop_succ_cons, List.drop_zero]
    rw [show content.length + 2 - 1 - 1 = content.length by omega, List.take_left]
  unfold string?
  simp only [without_prefix_of_plain isPlain, read]
  rw [show (Segment.ofLiteral 0 ⟨.quoted, content.length + 2, 1, 1⟩ (q :: (content ++ [q]))).text = q :: (content ++ [q])
    from rfl, rest, kept, if_pos known]
  rfl

theorem within_quoted (quotes : g.QuotesWith q) {content suffix : List Char} (inside : PlainText content)
    (ends : suffix.head? ≠ some q) (trimmed : trim suffix = suffix)
    (known : (suffix.isEmpty || g.stringSuffixes.contains suffix) = true)
    (isPlain : plain g (q :: (content ++ q :: suffix)) = true)
    (bare : unwrapOptional g (q :: (content ++ q :: suffix)) = q :: (content ++ q :: suffix)) (levels : Nat) :
    within g levels (q :: (content ++ q :: suffix)) = ⟨.string (String.ofList content), .string, false⟩ := by
  have scalar := scalar_of_plain isPlain
  rw [string_quoted quotes inside ends trimmed known isPlain] at scalar
  rw [within]
  simp only [bare, scalar]
  rfl

end

section

variable {g : Grammar}

theorem string_of_code {c : Char} {rest : List Char} (isPlain : plain g (c :: rest) = true)
    (code : Context.literal? g {} (c :: rest) = none) : string? g (c :: rest) = none := by
  obtain ⟨first, more, read, kind, _⟩ := Segment.of_tokens_code 0 c [] (tokensFrom g (Context.afterCode {} c) rest)
  have whole : segments g (c :: rest) = first :: more := by
    rw [segments_eq, tokens, tokens_from_code code]
    exact read
  unfold string?
  simp [without_prefix_of_plain isPlain, whole, kind]

theorem symbol_of_head {s : List Char} (head : s.head? ≠ some ':') : symbol? g s = none := by
  unfold symbol?
  split
  · exact absurd rfl head
  · rfl

theorem list_interior_of_first {shape : ListShape} {others : List ListShape} (lists : g.lists = shape :: others)
    {text inner : List Char} {found : Pattern.Match} (opens : shape.opening.find? text = some found)
    (stop : found.stop.rest = inner) {v : Visit} (closes : matchingClose g inner shape.closing = some v)
    (ends : v.rest = []) : listInterior? g text = some (takeBytes v.offset inner) := by
  unfold listInterior?
  rw [lists, List.findSome?_cons]
  simp [opens, stop, closes, ends]

theorem texts_of_pieces (separator : Char) (offset : Nat) (p : Part) (rest : List Part) :
    (Part.pieces separator offset p rest).map Slice.text = ((p :: rest).map (·.body)).filter fun body => !body.isEmpty := by
  have single : ∀ (p : Part) (offset : Nat) (later : List Char),
      (p.piece offset later).map Slice.text = [p.body].filter fun body => !body.isEmpty := by
    intro p offset later
    unfold Part.piece
    by_cases empty : p.body = []
    · simp [empty]
    · simp [empty]
  induction rest generalizing p offset with
  | nil => exact single p offset []
  | cons q rest ih =>
    have split : ((p :: q :: rest).map (·.body)) = [p.body] ++ (q :: rest).map (·.body) := rfl
    rw [Part.pieces, List.map_append, single, ih, split, List.filter_append]

theorem elements_of_parts {p : Part} {rest : List Part} (separates : Separates g [','] ',' (p :: rest))
    (spreadless : ∀ q ∈ p :: rest, isSpread g q.body = false) :
    elements g (Part.join ',' p rest) = ((p :: rest).map (·.body)).filter fun body => !body.isEmpty := by
  unfold elements
  rw [split_parts 0 separates, texts_of_pieces, List.filter_filter]
  refine List.filter_congr fun body member => ?_
  obtain ⟨q, inside, rfl⟩ := List.mem_map.mp member
  rw [spreadless q inside]
  rfl

theorem within_list {c : Char} {rest inner : List Char} {closing : Char} {shape : ListShape} {others : List ListShape}
    {found : Pattern.Match} {base : Char → Bool} {free : Bool} (isPlain : plain g (c :: rest) = true)
    (bare : unwrapOptional g (c :: rest) = c :: rest) (code : Context.literal? g {} (c :: rest) = none)
    (head : c ≠ ':') (lists : g.lists = shape :: others) (opens : shape.opening.find? (c :: rest) = some found)
    (stop : found.stop.rest = inner ++ [closing]) (closes : shape.closing = closing) (isClose : isClosing closing = true)
    (breaks : isBreak closing = true) (clear : g.clearAt [closing] = true) (passes : Passes g base free inner)
    (inside : ∀ c, base c = true → isClosing c = false) {contents : List (List Char)} (levels : Nat)
    (values : (elements g inner).map (within g levels) =
      contents.map fun content => ⟨.string (String.ofList content), .string, false⟩) :
    within g (levels + 1) (c :: rest) =
      ⟨.array (contents.map fun content => .string (String.ofList content)), .array, false⟩ := by
  have scalar := scalar_of_plain isPlain
  rw [string_of_code isPlain code, symbol_of_head (by simpa using head)] at scalar
  obtain ⟨v, matched, offset, ends⟩ : ∃ v, matchingClose g (inner ++ [closing]) closing = some v ∧
      v.offset = size inner ∧ v.rest = [] := matching_close_passage passes isClose breaks clear inside
  have interior := list_interior_of_first lists opens stop (closes ▸ matched) ends
  rw [offset, take_bytes_append] at interior
  rw [within]
  simp only [bare, scalar, interior, values]
  simp

end

end Inferred

end SnippetReview
