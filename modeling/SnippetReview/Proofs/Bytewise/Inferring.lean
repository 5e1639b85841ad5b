import SnippetReview.Proofs.Bytewise.Assigning
import SnippetReview.Proofs.Pattern.Places
import SnippetReview.Proofs.Text.LowerCase
import SnippetReview.Snippet.Inference

set_option autoImplicit false

namespace SnippetReview

open Text

namespace Bytewise

def unwrapCall (g : Grammar) (text : List Char) (opened : Nat) : Checked (List Char) := do
  match ← matchingClose g (← sliceFrom text (opened + 1)) ')' with
  | none => return text
  | some close => do
    let last ← minus (size text) 1
    if opened + 1 + close = last then do
      let inner ← slice text (opened + 1) last
      return trim inner
    else return text

def unwrapOptional (g : Grammar) (text : List Char) : Checked (List Char) :=
  match g.optionalWrapper with
  | none => return text
  | some wrapper =>
    let rest := trimStart (text.drop wrapper.length)
    if wrapper.isPrefixOf text && rest.head? == some '(' then do
      let opened ← minus (size text) (size rest)
      unwrapCall g text opened
    else return text

def hasStringPrefix (text letters : List Char) : Checked Bool :=
  if size letters < size text ∧ isBoundary text (size letters) then do
    let front ← slice text 0 (size letters)
    if front.map Char.toLower == letters.map Char.toLower then do
      let b ← byteAt (bytes text) (size letters)
      return charOf b == '"' || charOf b == '\''
    else return false
  else return false

def withoutStringPrefix (g : Grammar) (text : List Char) : Checked (List Char) := do
  match ← g.stringPrefixes.findM? (hasStringPrefix text) with
  | some letters => sliceFrom text (size letters)
  | none => return text

def spanContent (text : List Char) (span : Span) : Checked (List Char) := do
  let stop ← minus span.stop span.closing
  slice text (span.start + span.opening) stop

def stringBy (g : Grammar) (text : List Char) (first : Span) : Checked (Option (List Char)) :=
  if first.kind = .quoted ∧ first.start = 0 ∧ first.closing ≠ 0 then do
    let rest := trim (← sliceFrom text first.stop)
    if rest.isEmpty || g.stringSuffixes.contains rest then some <$> spanContent text first else return none
  else return none

def string (g : Grammar) (text : List Char) : Checked (Option (List Char)) := do
  let text ← withoutStringPrefix g text
  match ← segment g text with
  | first :: _ => stringBy g text first
  | [] => return none

def symbol (g : Grammar) (text : List Char) : Checked (Option (List Char)) :=
  if (Inferred.symbol? g text).isSome then some <$> sliceFrom text 1 else return none

def listInteriorBy (g : Grammar) (text : List Char) (shape : ListShape) : Checked (Option (List Char)) := do
  match shape.opening.find? text with
  | none => return none
  | some found => do
    let interior ← sliceFrom text found.stop.offset
    match ← matchingClose g interior shape.closing with
    | none => return none
    | some close => do
      let last ← minus (size text) 1
      if found.stop.offset + close = last then some <$> slice interior 0 close else return none

def isRegex (g : Grammar) (text : List Char) : Checked Bool :=
  if g.regexLiterals then do
    let spans ← segment g text
    if spans.length = 1 then
      match spans[0]? with
      | some only => return only.kind = .regex
      | none => .error .index
    else return false
  else return false

def scalar (g : Grammar) (text : List Char) : Checked (Option Inferred) :=
  if g.nullWords.contains text then return some ⟨.null, .null, false⟩
  else if g.trueWords.contains text then return some ⟨.boolean true, .boolean, false⟩
  else if g.falseWords.contains text then return some ⟨.boolean false, .boolean, false⟩
  else if g.callables.any (·.matchesIn text) then return some (.raw text .callback)
  else
    match Inferred.number? g text with
    | some value => return some ⟨.number value, .number, false⟩
    | none => do
      match ← string g text with
      | some content => return some ⟨.string (String.ofList content), .string, false⟩
      | none => do
        let name ← symbol g text
        return name.map fun name => ⟨.string (String.ofList name), .string, false⟩

def other (g : Grammar) (text : List Char) : Checked Inferred := do
  if ← isRegex g text then return .raw text .regex
  else if text.head? == some '\x7b' then return .raw text .object
  else return .raw text .expression

def elements (g : Grammar) (interior : List Char) : Checked (List (List Char)) := do
  let items ← split g 0 interior [',']
  let texts ← items.mapM (Item.text interior)
  return texts.filter fun item => !isSpread g item

def inferAt (g : Grammar) (levels : Nat) : Nat → Nat → List Char → Checked Inferred
  | 0, _, _ => .error .endless
  | fuel + 1, depth, text => do
    let text ← unwrapOptional g text
    match ← scalar g text with
    | some inferred => return inferred
    | none =>
      match ← g.lists.findSomeM? (listInteriorBy g text) with
      | none => other g text
      | some interior =>
        if levels ≤ depth then return { Inferred.raw text .array with tooDeep := true }
        else do
          let items ← (← elements g interior).mapM (inferAt g levels fuel (depth + 1))
          return ⟨.array (items.map (·.value)), .array, items.any (·.tooDeep)⟩

def infer (g : Grammar) (levels : Nat) (text : List Char) : Checked Inferred := inferAt g levels (levels + 1) 0 (trim text)

end Bytewise

-- What values rely on: the letters before strings and the brackets around lists are ASCII.
structure Grammar.Valued (g : Grammar) : Prop extends g.Signed where
  letters : ∀ letters ∈ g.stringPrefixes, Bytewise.Ascii letters
  lists : ∀ shape ∈ g.lists, shape.closing.toNat < 128

namespace Bytewise

section

variable {g : Grammar}

theorem closed_at_end (front : List Char) {inner : List Char} {closing : Char} {v : Visit} (small : closing.toNat < 128)
    (found : SnippetReview.matchingClose g inner closing = some v) :
    minus (size (front ++ inner)) 1 = .ok (size (front ++ inner) - 1) ∧
      (size front + v.offset = size (front ++ inner) - 1 ↔ v.rest = []) ∧ slice inner 0 v.offset = .ok (takeBytes v.offset inner) := by
  obtain ⟨same, done, stands⟩ := stands_of_close found
  have one := utf8_size_ascii small
  have total : size (front ++ inner) = size front + v.offset + 1 + size v.rest := by
    rw [stands.text, size_append, size_append, size_cons, same, one, stands.offset]
    omega
  refine ⟨minus_of_le (by omega), ?_, ?_⟩
  · rw [← size_eq_zero_iff]
    omega
  · rw [stands.offset, stands.text, take_bytes_append]
    exact slice_to_parts rfl rfl

theorem unwrap_call_spec (ascii : g.InAscii) {text front inner : List Char} (split : text = front ++ '(' :: inner) :
    unwrapCall g text (size front) = .ok
      (match SnippetReview.matchingClose g inner ')' with
        | some v => if v.rest.isEmpty then trim (takeBytes v.offset inner) else text
        | none => text) := by
  have one : '('.utf8Size = 1 := by decide
  have opened : size front + 1 = size (front ++ ['(']) := by rw [size_append, size_singleton, one]
  have parts : text = front ++ ['('] ++ inner := by rw [split, List.append_assoc, List.singleton_append]
  rw [unwrapCall, slice_from_parts parts opened, ok_bind, matching_close_spec ascii inner (by decide), ok_bind]
  cases found : SnippetReview.matchingClose g inner ')' with
  | none => rfl
  | some v =>
    obtain ⟨last, ends, _⟩ := closed_at_end (front ++ ['(']) (by decide) found
    rw [← opened, ← parts] at ends
    rw [← parts] at last
    simp only [Option.map_some, last, ok_bind]
    -- The bracket closes with the last byte just when nothing follows it.
    by_cases none : v.rest = []
    · have stop := ends.mpr none
      have part : slice text (size front + 1) (size text - 1) = .ok (takeBytes v.offset inner) := by
        obtain ⟨_, done, stands⟩ := stands_of_close found
        have taken : takeBytes v.offset inner = done := by rw [stands.offset, stands.text, take_bytes_append]
        rw [taken, ← stop]
        refine slice_of_parts (q := v.char :: v.rest) ?_ opened (by rw [opened, stands.offset])
        rw [parts, stands.text, List.append_assoc _ done]
      rw [if_pos stop, if_pos (List.isEmpty_iff.mpr none), part]
      rfl
    · rw [if_neg fun same => none (ends.mp same), if_neg fun empty => none (List.isEmpty_iff.mp empty)]
      rfl

theorem unwrap_optional_spec (ascii : g.InAscii) (text : List Char) :
    unwrapOptional g text = .ok (Inferred.unwrapOptional g text) := by
  unfold unwrapOptional Inferred.unwrapOptional
  cases g.optionalWrapper with
  | none => rfl
  | some wrapper =>
    dsimp only
    by_cases here : wrapper.isPrefixOf text = true
    · obtain ⟨later, parts⟩ := List.isPrefixOf_iff_prefix.mp here
      obtain ⟨lead, _, trimmed⟩ := trim_start_split (text.drop wrapper.length)
      have whole : text = wrapper ++ lead ++ trimStart (text.drop wrapper.length) := by
        rw [List.append_assoc, ← trimmed, ← parts, List.drop_left]
      rw [if_pos here, here, Bool.true_and]
      by_cases call : ((trimStart (text.drop wrapper.length)).head? == some '(') = true
      · obtain ⟨inner, shape⟩ := head_is_iff.mp call
        rw [if_pos call, shape]
        rw [shape] at whole
        rw [minus_of_parts whole, ok_bind]
        exact unwrap_call_spec ascii whole
      · rw [if_neg call]
        split
        next inner shape => exact absurd (head_is_iff.mpr ⟨inner, shape⟩) call
        next => rfl
    · rw [if_neg here, Bool.eq_false_iff.mpr here, Bool.false_and]
      rfl

-- Folding case keeps a character in ASCII or out of it, so that a prefix in any case has a byte for each letter.
theorem ascii_of_to_lower {c d : Char} (ascii : d.toNat < 128) (same : c.toLower = d.toLower) : c.toNat < 128 := by
  refine Decidable.byContradiction fun high => high ?_
  rw [← to_lower_high high, same]
  exact (ascii_lower_settled ascii).1

theorem ascii_of_map_lower {s letters : List Char} (ascii : Ascii letters)
    (same : s.map Char.toLower = letters.map Char.toLower) : Ascii s := by
  intro c member
  have lowered : c.toLower ∈ letters.map Char.toLower := by
    rw [← same]
    exact List.mem_map_of_mem member
  obtain ⟨d, among, equal⟩ := List.mem_map.mp lowered
  exact ascii_of_to_lower (ascii d among) equal.symm

theorem has_string_prefix_spec {letters : List Char} (ascii : Ascii letters) (text : List Char) :
    hasStringPrefix text letters = .ok (Inferred.hasStringPrefix text letters) := by
  unfold hasStringPrefix Inferred.hasStringPrefix
  have parts : text = text.take letters.length ++ text.drop letters.length := (List.take_append_drop _ _).symm
  by_cases same : (text.take letters.length).map Char.toLower = letters.map Char.toLower
  · -- The text begins with as many bytes as the prefix has.
    have length : (text.take letters.length).length = letters.length := by
      have lengths := congrArg List.length same
      rwa [List.length_map, List.length_map] at lengths
    have place : size letters = size (text.take letters.length) := by
      rw [size_of_ascii ascii, size_of_ascii (ascii_of_map_lower ascii same), length]
    have boundary : isBoundary text (size letters) = true := by
      rw [place]
      conv => lhs; arg 1; rw [parts]
      exact boundary_size _ _
    have front : slice text 0 (size letters) = .ok (text.take letters.length) := slice_to_parts parts place
    rw [beq_iff_eq.mpr same, Bool.true_and]
    cases rest : text.drop letters.length with
    | nil =>
      have whole : size text = size letters := by
        rw [place]
        conv => lhs; arg 1; rw [parts, rest, List.append_nil]
      rw [if_neg (by rw [whole]; exact fun less => Nat.lt_irrefl _ less.1)]
      rfl
    | cons c more =>
      have positive := Char.utf8Size_pos c
      have total : size text = size letters + (c.utf8Size + size more) := by
        rw [place, ← size_cons, ← rest, ← size_append, ← parts]
      have here : byteAt (bytes text) (size letters) = .ok (firstByte c) := by
        rw [place]
        exact byte_at_first (by rw [← rest, ← parts])
      rw [if_pos ⟨by omega, boundary⟩, front, ok_bind, beq_iff_eq.mpr same, if_pos rfl, here, ok_bind,
        first_is (by decide), first_is (by decide)]
      rfl
  · rw [beq_eq_false_iff_ne.mpr same, Bool.false_and]
    -- As many bytes may make other characters, or cut one; then no slice is taken at all.
    by_cases fits : size letters < size text ∧ isBoundary text (size letters) = true
    · have boundary : size (takeBytes (size letters) text) = size letters := beq_iff_eq.mp fits.2
      have whole : text = takeBytes (size letters) text ++ dropBytes (size letters) text := (List.take_append_drop _ _).symm
      have front : slice text 0 (size letters) = .ok (takeBytes (size letters) text) := slice_to_parts whole boundary.symm
      have other : (takeBytes (size letters) text).map Char.toLower ≠ letters.map Char.toLower := by
        intro equal
        have lengths := congrArg List.length equal
        rw [List.length_map, List.length_map] at lengths
        refine same ?_
        rw [← equal, ← lengths]
        conv => lhs; arg 2; arg 2; rw [whole]
        rw [List.take_left]
      rw [if_pos fits, front, ok_bind, beq_eq_false_iff_ne.mpr other]
      rfl
    · rw [if_neg fits]
      rfl

theorem without_string_prefix_spec (valued : g.Valued) (text : List Char) :
    withoutStringPrefix g text = .ok (Inferred.withoutStringPrefix g text) := by
  rw [withoutStringPrefix, find_m_of_ok fun letters member => has_string_prefix_spec (valued.letters letters member) text,
    ok_bind, Inferred.withoutStringPrefix]
  cases found : g.stringPrefixes.find? (Inferred.hasStringPrefix text) with
  | none => rfl
  | some letters =>
    have ascii := valued.letters letters (List.mem_of_find?_eq_some found)
    have stands : Inferred.hasStringPrefix text letters = true := List.find?_some found
    rw [Inferred.hasStringPrefix, Bool.and_eq_true, beq_iff_eq] at stands
    have length : (text.take letters.length).length = letters.length := by
      have lengths := congrArg List.length stands.1
      rwa [List.length_map, List.length_map] at lengths
    refine slice_from_parts (List.take_append_drop letters.length text).symm ?_
    rw [size_of_ascii ascii, size_of_ascii (ascii_of_map_lower ascii stands.1), length]

theorem literal_of_segments {text : List Char} {first : Segment} {rest : List Segment}
    (parts : segments g text = first :: rest) (kind : first.kind ≠ .code) :
    ∃ c tail l, text = c :: tail ∧ ({} : Context).literal? g text = some l ∧
      first = Segment.ofLiteral 0 l (c :: tail.take (l.length - 1)) := by
  rw [segments_eq, tokens] at parts
  cases text with
  | nil =>
    rw [tokens_from_nil] at parts
    cases parts
  | cons c tail =>
    cases found : ({} : Context).literal? g (c :: tail) with
    | none =>
      rw [tokens_from_code found, Segment.ofTokens] at parts
      obtain ⟨_, _, same, code, _⟩ := Segment.of_tokens_code 0 c [] (tokensFrom g (Context.afterCode {} c) tail)
      rw [parts, List.cons.injEq] at same
      exact absurd (same.1 ▸ code) kind
    | some l =>
      rw [tokens_from_literal found, Segment.ofTokens] at parts
      exact ⟨c, tail, l, rfl, rfl, (List.cons.inj parts).1.symm⟩

theorem quoted_parts (ascii : g.InAscii) {x : Context} {c : Char} {tail : List Char} {l : Literal}
    (found : x.literal? g (c :: tail) = some l) (kind : l.kind = .quoted) (closed : l.closing ≠ 0) :
    ∃ opening content closing, c :: tail.take (l.length - 1) = opening ++ content ++ closing ∧ Ascii opening ∧
      Ascii closing ∧ l.opening = opening.length ∧ l.closing = closing.length := by
  obtain ⟨style, member, content, parts, opening, closing⟩ := closed_parts found kind closed
  exact ⟨style.opening, content, style.closing, parts, (ascii.asciiQuote style member).1, (ascii.asciiQuote style member).2,
    opening, closing⟩

theorem quoted_first (ascii : g.InAscii) {text : List Char} {first : Segment} {rest : List Segment}
    (parts : segments g text = first :: rest) (kind : first.kind = .quoted) (closed : first.closing ≠ 0) :
    ∃ opening closing later, text = opening ++ first.content ++ closing ++ later ∧
      first.text = opening ++ first.content ++ closing ∧ size opening = first.opening ∧ size closing = first.closing := by
  obtain ⟨c, tail, l, rfl, found, rfl⟩ := literal_of_segments parts (by rw [kind]; decide)
  obtain ⟨opening, content, closing, split, asciiOpening, asciiClosing, openingLength, closingLength⟩ :=
    quoted_parts ascii found kind closed
  obtain ⟨whole, _⟩ := literal_split ascii.toLegible found
  have held : Segment.content (Segment.ofLiteral 0 l (c :: tail.take (l.length - 1))) = content := by
    have count : opening.length + (content.length + closing.length) - opening.length - closing.length = content.length := by
      omega
    rw [Segment.content, Segment.ofLiteral, split, openingLength, closingLength, List.append_assoc, List.drop_left,
      List.length_append, List.length_append, count, List.take_left]
  rw [held]
  refine ⟨opening, closing, tail.drop (l.length - 1), by rw [← split]; exact whole, split, ?_, ?_⟩
  · exact (size_of_ascii asciiOpening).trans openingLength.symm
  · exact (size_of_ascii asciiClosing).trans closingLength.symm

theorem string_by_spec (ascii : g.InAscii) {text : List Char} {first : Segment} {rest : List Segment}
    (parts : segments g text = first :: rest) :
    stringBy g text first.span = .ok
      (if first.kind = .quoted && first.isClosed then
        if (trim (text.drop first.text.length)).isEmpty || g.stringSuffixes.contains (trim (text.drop first.text.length))
        then some first.content else none
      else none) := by
  have start : first.start = 0 := by
    have contiguous := contiguous_segments g text
    rw [parts] at contiguous
    exact contiguous.1
  unfold stringBy
  by_cases literal : first.kind = .quoted ∧ first.closing ≠ 0
  · obtain ⟨opening, closing, later, whole, split, opens, closes⟩ := quoted_first ascii parts literal.1 literal.2
    have stop : first.span.stop = size first.text := by
      change first.start + size first.text = _
      rw [start, Nat.zero_add]
    have behind : sliceFrom text first.span.stop = .ok later := slice_from_parts (by rw [whole, split]) stop
    have dropped : text.drop first.text.length = later := by
      rw [whole, split, List.drop_left]
    have content : spanContent text first.span = .ok first.content := by
      have room : minus first.span.stop first.span.closing = .ok (size opening + size first.content) := by
        change minus first.span.stop first.closing = _
        rw [stop, ← closes, minus_of_parts split, size_append]
      rw [spanContent, room, ok_bind]
      change slice text (first.start + first.opening) _ = _
      rw [start, Nat.zero_add, ← opens]
      exact slice_of_parts (q := closing ++ later) (by rw [← List.append_assoc]; exact whole) rfl rfl
    have kept : (decide (first.kind = .quoted) && first.isClosed) = true := by
      rw [literal.1, Segment.isClosed, bne_iff_ne.mpr literal.2]
      rfl
    rw [if_pos ⟨literal.1, start, literal.2⟩, behind, ok_bind, if_pos kept, dropped, content]
    by_cases ends : ((trim later).isEmpty || g.stringSuffixes.contains (trim later)) = true
    · rw [if_pos ends, if_pos ends]
      rfl
    · rw [if_neg ends, if_neg ends]
      rfl
  · have other : (decide (first.kind = .quoted) && first.isClosed) ≠ true := by
      rw [ne_eq, Bool.and_eq_true, decide_eq_true_eq, Segment.isClosed, bne_iff_ne]
      exact literal
    rw [if_neg fun held => literal ⟨held.1, held.2.2⟩, if_neg other]
    rfl

theorem string_spec (valued : g.Valued) (text : List Char) : string g text = .ok (Inferred.string? g text) := by
  rw [string, without_string_prefix_spec valued, ok_bind, Inferred.string?]
  generalize Inferred.withoutStringPrefix g text = text
  dsimp only
  rw [segment_eq valued.toInAscii, ok_bind]
  cases parts : segments g text with
  | nil => rfl
  | cons first rest => exact string_by_spec valued.toInAscii parts

theorem symbol_spec (text : List Char) : symbol g text = .ok (Inferred.symbol? g text) := by
  unfold symbol
  cases found : Inferred.symbol? g text with
  | none => rfl
  | some name =>
    have colon : text = ':' :: name := by
      unfold Inferred.symbol? at found
      split at found
      · obtain ⟨_, same⟩ := Option.ite_none_right_eq_some.mp found
        rw [Option.some.inj same]
      · contradiction
    have one : ':'.utf8Size = 1 := by decide
    have behind : sliceFrom text 1 = .ok name := slice_from_parts (p := [':']) colon (by rw [size_singleton, one])
    rw [Option.isSome_some, if_pos rfl, behind]
    rfl

theorem list_interior_by_spec (ascii : g.InAscii) {shape : ListShape} (small : shape.closing.toNat < 128)
    (text : List Char) :
    listInteriorBy g text shape = .ok
      (do
        let found ← shape.opening.find? text
        let v ← SnippetReview.matchingClose g found.stop.rest shape.closing
        if v.rest.isEmpty then some (takeBytes v.offset found.stop.rest) else none) := by
  unfold listInteriorBy
  cases opens : shape.opening.find? text with
  | none => rfl
  | some found =>
    obtain ⟨front, split, place⟩ := (Pattern.find_in opens).2
    have interior : sliceFrom text found.stop.offset = .ok found.stop.rest := slice_from_parts split place
    simp only [interior, ok_bind, matching_close_spec ascii _ small, Option.bind_eq_bind, Option.bind_some]
    cases closes : SnippetReview.matchingClose g found.stop.rest shape.closing with
    | none => rfl
    | some v =>
      obtain ⟨last, ends, part⟩ := closed_at_end front small closes
      rw [← split, ← place] at ends
      rw [← split] at last
      simp only [Option.map_some, last, ok_bind, Option.bind_some, part]
      by_cases none : v.rest = []
      · rw [if_pos (ends.mpr none), if_pos (List.isEmpty_iff.mpr none)]
        rfl
      · rw [if_neg fun same => none (ends.mp same), if_neg fun empty => none (List.isEmpty_iff.mp empty)]
        rfl

theorem is_regex_spec (ascii : g.InAscii) (text : List Char) : isRegex g text = .ok (Inferred.isRegex g text) := by
  unfold isRegex Inferred.isRegex
  cases g.regexLiterals with
  | false => rfl
  | true =>
    rw [if_pos rfl, segment_eq ascii, ok_bind, Bool.true_and]
    match segments g text with
    | [] => rfl
    | [only] => rfl
    | _ :: _ :: _ => rfl

theorem scalar_spec (valued : g.Valued) (text : List Char) : scalar g text = .ok (Inferred.scalar? g text) := by
  unfold scalar Inferred.scalar?
  split
  · rfl
  split
  · rfl
  split
  · rfl
  split
  · rfl
  cases Inferred.number? g text with
  | some value => rfl
  | none =>
    simp only [string_spec valued, ok_bind]
    cases Inferred.string? g text with
    | some content => rfl
    | none =>
      simp only [symbol_spec, ok_bind]
      rfl

theorem other_spec (ascii : g.InAscii) (text : List Char) : other g text = .ok (Inferred.other g text) := by
  unfold other Inferred.other
  rw [is_regex_spec ascii, ok_bind]
  split
  · rfl
  split
  · rfl
  · rfl

theorem map_m_of_ok {α β γ : Type} {f : α → Checked β} {h : γ → α} {k : γ → β} {l : List γ}
    (checked : ∀ c ∈ l, f (h c) = .ok (k c)) : (l.map h).mapM f = .ok (l.map k) := by
  induction l with
  | nil => rfl
  | cons c rest ih =>
    rw [List.map_cons, List.mapM_cons, checked c List.mem_cons_self, ok_bind,
      ih fun d member => checked d (List.mem_cons_of_mem c member)]
    rfl

theorem elements_spec (ascii : g.InAscii) (interior : List Char) :
    elements g interior = .ok (Inferred.elements g interior) := by
  have laid := split_laid (show ∀ c ∈ [','], c.utf8Size = 1 by decide) g 0 interior
  have texts : ((SnippetReview.split g 0 interior [',']).map Slice.item).mapM (Item.text interior) =
      .ok ((SnippetReview.split g 0 interior [',']).map Slice.text) := by
    refine map_m_of_ok fun p member => ?_
    exact text_of_lies (laid.opens p (List.mem_reverse.mpr member)).liesIn
  rw [elements, split_spec ascii (by decide), ok_bind, texts]
  rfl

theorem infer_at_spec (valued : g.Valued) (levels fuel depth : Nat) (enough : levels < fuel + depth) (bound : depth ≤ levels)
    (text : List Char) : inferAt g levels fuel depth text = .ok (Inferred.within g (levels - depth) text) := by
  -- Each level of lists takes one unit of fuel, and the limit on levels is met before the fuel is used up.
  induction fuel generalizing depth text with
  | zero => omega
  | succ fuel ih =>
    rw [inferAt, unwrap_optional_spec valued.toInAscii, ok_bind, Inferred.within]
    generalize Inferred.unwrapOptional g text = text
    have interiors : g.lists.findSomeM? (listInteriorBy g text) = .ok (Inferred.listInterior? g text) :=
      find_some_m_of_ok fun shape member => list_interior_by_spec valued.toInAscii (valued.lists shape member) text
    simp only [scalar_spec valued, ok_bind, interiors]
    cases Inferred.scalar? g text with
    | some inferred => rfl
    | none =>
      cases Inferred.listInterior? g text with
      | none => exact other_spec valued.toInAscii text
      | some interior =>
        dsimp only
        by_cases deep : levels ≤ depth
        · rw [if_pos deep, Nat.sub_eq_zero_of_le deep]
          rfl
        · have deeper : levels - depth = levels - (depth + 1) + 1 := by omega
          rw [if_neg deep, deeper, elements_spec valued.toInAscii, ok_bind]
          have items : (Inferred.elements g interior).mapM (inferAt g levels fuel (depth + 1)) =
              .ok ((Inferred.elements g interior).map (Inferred.within g (levels - (depth + 1)))) := by
            have each := map_m_of_ok (h := id) (l := Inferred.elements g interior)
              fun item _ => ih (depth + 1) (by omega) (by omega) item
            rwa [List.map_id] at each
          rw [items]
          rfl

theorem infer_spec (valued : g.Valued) (levels : Nat) (text : List Char) :
    infer g levels text = .ok (Inferred.ofText g levels text) :=
  infer_at_spec valued levels (levels + 1) 0 (by omega) (Nat.zero_le _) (trim text)

end

end Bytewise

end SnippetReview
