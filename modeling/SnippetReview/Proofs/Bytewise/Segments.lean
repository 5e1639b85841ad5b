import SnippetReview.Host.BlockGrammars
import SnippetReview.Proofs.Bytewise.Scanning
import SnippetReview.Proofs.Lexing.Stripping

set_option autoImplicit false

namespace SnippetReview

open Text

structure Span where
  kind : SegmentKind
  start : Nat
  stop : Nat
  opening : Nat
  closing : Nat
deriving DecidableEq, Repr

def Segment.span (s : Segment) : Span := ⟨s.kind, s.start, s.stop, s.opening, s.closing⟩

namespace Bytewise

def opensHere (bs : List UInt8) (i : Nat) (style : QuoteStyle) : Checked Bool := do
  let opening := bytes style.opening
  let rest ← bytesFrom bs i
  if opening.isPrefixOf rest then do
    let first := charOf (← byteAt opening 0)
    if first == '"' || first == '\'' || first == '`' then return true
    else do
      let before ← byteBefore bs i
      return !(before.map fun b => isIdentChar (charOf b)).getD false
  else return false

def regexAllowed (bs : List UInt8) (codeStart i : Nat) (last : Option SegmentKind) : Checked Bool := do
  let code ← bytesBetween bs codeStart i
  return Literal.regexMayStart (code.reverse.map charOf) last

def regexAt (g : Grammar) (bs : List UInt8) (codeStart i : Nat) (last : Option SegmentKind) : Checked (Option Span) := do
  if g.regexLiterals then do
    let b ← byteAt bs i
    if charOf b == '/' then
      if ← regexAllowed bs codeStart i last then do
        let stop ← regexEnd bs i
        return stop.map fun stop => ⟨.regex, i, stop, 1, 0⟩
      else return none
    else return none
  else return none

def literalAt (g : Grammar) (bs : List UInt8) (codeStart i : Nat) (last : Option SegmentKind) : Checked (Option Span) := do
  let rest ← bytesFrom bs i
  if g.lineComments.any fun marker => (bytes marker).isPrefixOf rest then do
    let stop ← newlineFrom bs i
    return some ⟨.comment, i, stop.getD bs.length, 0, 0⟩
  else
    match g.blockComments.find? fun markers => (bytes markers.1).isPrefixOf rest with
    | some (opening, closing) => do
      let stop ← blockEnd bs (bytes opening) (bytes closing) g.nestedComments (i + size opening)
      return some ⟨.comment, i, stop, size opening, 0⟩
    | none => do
      match ← g.quotes.findM? (opensHere bs i) with
      | some style => do
        let (stop, closed) ← stringEnd bs style (i + size style.opening)
        return some ⟨.quoted, i, stop, size style.opening, if closed then size style.closing else 0⟩
      | none => regexAt g bs codeStart i last

-- An index of the reader, where the code before it starts, and the segments before that, the last one first.
structure Scan where
  codeStart : Nat
  i : Nat
  done : List Span

def Scan.flush (scan : Scan) : List Span :=
  if scan.codeStart < scan.i then ⟨.code, scan.codeStart, scan.i, 0, 0⟩ :: scan.done else scan.done

def segmentStep (g : Grammar) (bs : List UInt8) (scan : Scan) : Checked (Scan ⊕ List Span) :=
  if scan.i < bs.length then do
    match ← literalAt g bs scan.codeStart scan.i (scan.done.head?.map (·.kind)) with
    | some span => return .inl ⟨span.stop, span.stop, span :: scan.flush⟩
    | none => return .inl { scan with i := scan.i + 1 }
  else return .inr { scan with i := bs.length }.flush.reverse

def segment (g : Grammar) (s : List Char) : Checked (List Span) :=
  loop (segmentStep g (bytes s)) ((bytes s).length + 1) ⟨0, 0, []⟩

def blankSpan (s : List Char) (span : Span) : Checked (List Char) := do
  let part ← slice s span.start span.stop
  return if span.kind = .comment then part.flatMap blanked else part

def stripComments (g : Grammar) (s : List Char) : Checked (List Char) := do
  let spans ← segment g s
  let parts ← spans.mapM (blankSpan s)
  return parts.flatten

end Bytewise

def Grammar.openings (g : Grammar) : List (List Char) :=
  g.lineComments ++ g.blockComments.map (·.1) ++ g.quotes.map (·.opening)

-- What the bytes of every grammar keep to: its delimiters are ASCII, and where words matter, they do not
-- begin like a word.
structure Grammar.InAscii (g : Grammar) : Prop extends g.Legible where
  asciiLine : ∀ marker ∈ g.lineComments, Bytewise.Ascii marker
  asciiBlock : ∀ markers ∈ g.blockComments, Bytewise.Ascii markers.1 ∧ Bytewise.Ascii markers.2
  asciiQuote : ∀ style ∈ g.quotes, Bytewise.Ascii style.opening ∧ Bytewise.Ascii style.closing
  breaks : g.blockWords.isSome = true → ∀ opening ∈ g.openings, ∀ c ∈ opening.head?, isIdentChar c = false

namespace Bytewise

theorem find_m_of_ok {α : Type} {p : α → Checked Bool} {q : α → Bool} {list : List α}
    (checked : ∀ a ∈ list, p a = .ok (q a)) : list.findM? p = .ok (list.find? q) := by
  induction list with
  | nil => rfl
  | cons a rest ih =>
    rw [List.findM?, checked a List.mem_cons_self, ok_bind, List.find?_cons,
      ih fun b member => checked b (List.mem_cons_of_mem a member)]
    cases q a <;> rfl

theorem opens_here_spec {style : QuoteStyle} (ascii : Ascii style.opening) (nonempty : style.opening ≠ [])
    (pre rest : List Char) :
    opensHere (bytes (pre ++ rest)) (size pre) style =
      .ok (style.opening.isPrefixOf rest && Literal.QuoteStyle.opensAfter style pre.getLast?) := by
  obtain ⟨c, more, shape⟩ := List.exists_cons_of_ne_nil nonempty
  have first : byteAt (bytes style.opening) 0 = .ok (firstByte c) := by
    rw [shape]
    exact byte_at_first (p := []) rfl
  have before : (pre.getLast?.map lastByte).map (fun b => isIdentChar (charOf b)) = pre.getLast?.map isIdentChar := by
    rw [Option.map_map]
    congr 1
    funext d
    exact test_last ident_char_test d
  rw [opensHere, bytes_from, ok_bind, prefix_bytes ascii]
  by_cases here : style.opening.isPrefixOf rest = true
  · rw [if_pos here, here, Bool.true_and, first, ok_bind]
    simp only [first_is (show '"'.toNat < 128 by decide), first_is (show '\''.toNat < 128 by decide),
      first_is (show '`'.toNat < 128 by decide), byte_before, ok_bind, before]
    rw [Literal.QuoteStyle.opensAfter, shape]
    change (if (c == '"' || c == '\'' || c == '`') = true then pure true else _) = Except.ok ((c == '"' || c == '\'' || c == '`') || _)
    generalize (c == '"' || c == '\'' || c == '`') = mark
    cases mark <;> rfl
  · rw [if_neg here, Bool.eq_false_iff.mpr here]
    rfl

theorem regex_may_start_bytes (code : List Char) (last : Option SegmentKind) :
    Literal.regexMayStart ((bytes code.reverse).reverse.map charOf) last = Literal.regexMayStart code last := by
  induction code with
  | nil => rfl
  | cons c more ih =>
    have split : (bytes (c :: more).reverse).reverse.map charOf =
        (String.utf8EncodeChar c).reverse.map charOf ++ (bytes more.reverse).reverse.map charOf := by simp
    rw [split]
    have tests : ∀ b ∈ String.utf8EncodeChar c, isAsciiBlank (charOf b) = isAsciiBlank c := fun b member =>
      test_of_mem_encode ascii_blank_test member
    unfold Literal.regexMayStart at *
    rw [List.find?_append, List.find?_cons]
    by_cases blank : isAsciiBlank c = true
    · have skipped : ((String.utf8EncodeChar c).reverse.map charOf).find? (fun d => !isAsciiBlank d) = none := by
        rw [List.find?_eq_none]
        intro d member
        obtain ⟨b, inside, rfl⟩ := List.mem_map.mp member
        rw [tests b (List.mem_reverse.mp inside), blank]
        exact Bool.false_ne_true
      rw [skipped, Option.none_or, blank]
      exact ih
    · have ink := Bool.eq_false_iff.mpr blank
      have found : ((String.utf8EncodeChar c).reverse.map charOf).find? (fun d => !isAsciiBlank d) =
          some (charOf (lastByte c)) := by
        rw [encode_last, List.reverse_append, List.reverse_singleton, List.singleton_append, List.map_cons]
        refine List.find?_cons_of_pos ?_
        rw [test_last ascii_blank_test, ink]
        rfl
      have operators : Ascii "(,=:[!&|?\x7b\x7d;+-*%<>~^".toList := by decide +kernel
      have contains : IsByteTest fun d => "(,=:[!&|?\x7b\x7d;+-*%<>~^".toList.contains d :=
        byte_test_of_ascii fun d member => operators d (List.contains_iff_mem.mp member)
      rw [found, Option.some_or, ink]
      exact test_last contains c

theorem regex_allowed_spec (front code rest : List Char) (last : Option SegmentKind) :
    regexAllowed (bytes (front ++ code.reverse ++ rest)) (size front) (size (front ++ code.reverse)) last =
      .ok (Literal.regexMayStart code last) := by
  rw [regexAllowed, size_append, bytes_between, ok_bind, regex_may_start_bytes]
  rfl

section

variable {g : Grammar}

theorem slash_cons (g : Grammar) (x : Context) (c : Char) (tail : List Char) :
    x.slash? g (c :: tail) =
      if c == '/' && (g.regexLiterals && x.regexMayStart) then
        (Literal.regexLength false false 0 tail).map fun length => ⟨.regex, length + 1, 1, 0⟩
      else none := by
  by_cases slash : c = '/'
  · rw [slash]
    rfl
  · rw [beq_eq_false_iff_ne.mpr slash, Context.slash?]
    · rfl
    · exact fun rest same => absurd (List.cons_eq_cons.mp same).1 slash

theorem regex_at_spec (front code rest : List Char) (before : Option Char) (last : Option SegmentKind) (more : rest ≠ []) :
    regexAt g (bytes (front ++ code.reverse ++ rest)) (size front) (size (front ++ code.reverse)) last =
      .ok (((Context.mk before code last).slash? g rest).map fun l =>
        ⟨l.kind, size (front ++ code.reverse), size (front ++ code.reverse) + size (rest.take l.length), l.opening,
          l.closing⟩) := by
  obtain ⟨c, tail, rfl⟩ := List.exists_cons_of_ne_nil more
  rw [regexAt, slash_cons, byte_at_first rfl, ok_bind, first_is (by decide), regex_allowed_spec, ok_bind]
  have may : (Context.mk before code last).regexMayStart = Literal.regexMayStart code last := rfl
  rw [may]
  by_cases literals : g.regexLiterals = true
  · rw [if_pos literals, literals, Bool.true_and]
    by_cases slash : c = '/'
    · rw [slash, if_pos (beq_self_eq_true _), beq_self_eq_true, Bool.true_and]
      by_cases allowed : Literal.regexMayStart code last = true
      · have whole : front ++ code.reverse ++ '/' :: tail = (front ++ code.reverse) ++ '/' :: [] ++ tail := by simp
        have found := regex_end_spec [] tail false ((bytes (front ++ code.reverse ++ '/' :: tail)).length + 1) whole (by
          rw [length_bytes, size_append, size_cons]
          omega)
        have start : size (front ++ code.reverse ++ ['/']) = size (front ++ code.reverse) + 1 := by
          rw [size_append _ ['/'], size_singleton]
          rfl
        rw [start] at found
        rw [if_pos allowed, if_pos allowed, regexEnd, found, ok_bind, Option.map_map, Option.map_map]
        rfl
      · rw [if_neg allowed, if_neg allowed]
        rfl
    · have other := beq_eq_false_iff_ne.mpr slash
      rw [other]
      rfl
  · rw [if_neg literals, Bool.eq_false_iff.mpr literals, Bool.false_and, Bool.and_false]
    rfl

theorem last_kind (done : List Segment) : (done.map Segment.span).head?.map (·.kind) = done.head?.map (·.kind) := by
  rw [List.head?_map, Option.map_map]
  rfl

theorem flush_spans (front code : List Char) (done : List Segment) :
    Scan.flush ⟨size front, size (front ++ code.reverse), done.map Segment.span⟩ =
      ((Segment.ofCode (size front) code).reverse ++ done).map Segment.span := by
  unfold Scan.flush Segment.ofCode
  cases code with
  | nil => simp
  | cons c more =>
    have positive := Char.utf8Size_pos c
    have grows : size front < size (front ++ (c :: more).reverse) := by
      simp only [List.reverse_cons, size_append, size_singleton]
      omega
    have span : Segment.span ⟨.code, size front, (c :: more).reverse, 0, 0⟩ =
        ⟨.code, size front, size (front ++ (c :: more).reverse), 0, 0⟩ := by
      rw [size_append]
      rfl
    rw [if_pos grows, List.isEmpty_cons, if_neg Bool.false_ne_true, List.reverse_singleton, List.singleton_append,
      List.map_cons, span]

theorem blank_spans (s pre post : List Char) (parts : List Segment) (contiguous : Contiguous (size pre) parts)
    (split : s = pre ++ parts.flatMap (·.text) ++ post) :
    (parts.map Segment.span).mapM (blankSpan s) =
      .ok (parts.map fun part => if part.kind = .comment then part.text.flatMap blanked else part.text) := by
  induction parts generalizing pre with
  | nil => rfl
  | cons part rest ih =>
    obtain ⟨start, next⟩ := contiguous
    rw [List.flatMap_cons] at split
    have whole : s = pre ++ part.text ++ (rest.flatMap (·.text) ++ post) := by rw [split]; simp
    have here : slice s part.start part.stop = .ok part.text :=
      slice_of_parts whole start (by rw [Segment.stop, start])
    have blank : blankSpan s part.span =
        .ok (if part.kind = .comment then part.text.flatMap blanked else part.text) := by
      unfold blankSpan
      change (slice s part.start part.stop >>= _) = _
      rw [here]
      rfl
    rw [← size_append] at next
    rw [List.map_cons, List.mapM_cons, ih (pre ++ part.text) next (by rw [whole]; simp), blank]
    rfl

variable (ascii : g.InAscii)

include ascii

theorem line_markers (s : List Char) :
    (g.lineComments.any fun marker => (bytes marker).isPrefixOf (bytes s)) = g.lineComments.any (·.isPrefixOf s) := by
  rw [Bool.eq_iff_iff, List.any_eq_true, List.any_eq_true]
  constructor
  · rintro ⟨marker, member, here⟩
    exact ⟨marker, member, by rwa [prefix_bytes (ascii.asciiLine marker member)] at here⟩
  · rintro ⟨marker, member, here⟩
    exact ⟨marker, member, by rwa [prefix_bytes (ascii.asciiLine marker member)]⟩

theorem block_markers (s : List Char) :
    (g.blockComments.find? fun markers => (bytes markers.1).isPrefixOf (bytes s)) = g.blockComments.find? (·.1.isPrefixOf s) :=
  find_congr fun markers member => prefix_bytes (ascii.asciiBlock markers member).1 s

theorem find_quote (pre rest : List Char) (code : List Char) (last : Option SegmentKind) :
    g.quotes.findM? (opensHere (bytes (pre ++ rest)) (size pre)) = .ok ((Context.mk pre.getLast? code last).quote? g rest) :=
  find_m_of_ok fun style member =>
    opens_here_spec (ascii.asciiQuote style member).1 (ascii.quote style member).1.1 pre rest

theorem block_comment_spec (pre : List Char) {rest : List Char} {markers : List Char × List Char}
    (member : markers ∈ g.blockComments) (here : markers.1.isPrefixOf rest = true) :
    blockEnd (bytes (pre ++ rest)) (bytes markers.1) (bytes markers.2) g.nestedComments (size pre + size markers.1) =
      .ok (size pre + size (rest.take (Literal.blockLength markers.1 markers.2 g.nestedComments 1 0 markers.1.length
        (rest.drop markers.1.length)))) := by
  obtain ⟨later, rfl⟩ := List.isPrefixOf_iff_prefix.mp here
  obtain ⟨asciiOpening, asciiClosing⟩ := ascii.asciiBlock markers member
  obtain ⟨⟨opens, _⟩, closes, _⟩ := ascii.block markers member
  have place := (List.append_assoc pre markers.1 later).symm
  have stop := block_end_spec g.nestedComments asciiOpening asciiClosing opens closes markers.1 later 1
    ((bytes (pre ++ (markers.1 ++ later))).length + 1) place (by
      rw [length_bytes, place, size_append _ later]
      omega) Nat.one_pos
  rw [size_append] at stop
  rw [blockEnd, stop, List.drop_left]

theorem quoted_spec (pre : List Char) {rest : List Char} {style : QuoteStyle} (member : style ∈ g.quotes)
    (here : style.opening.isPrefixOf rest = true) :
    stringEnd (bytes (pre ++ rest)) style (size pre + size style.opening) =
      .ok (size pre + size (rest.take (Literal.quotedLength style false 0 style.opening.length
          (rest.drop style.opening.length)).1),
        (Literal.quotedLength style false 0 style.opening.length (rest.drop style.opening.length)).2) := by
  obtain ⟨later, rfl⟩ := List.isPrefixOf_iff_prefix.mp here
  have place : pre ++ (style.opening ++ later) = pre ++ style.opening ++ [] ++ later := by simp
  have stop := string_end_spec (ascii.asciiQuote style member).2 (ascii.quote style member).2.1 [] later false
    ((bytes (pre ++ (style.opening ++ later))).length + 1) place (by
      rw [length_bytes, place, size_append _ later]
      omega) (fun _ => rfl)
  rw [List.append_nil, List.append_nil, size_append] at stop
  rw [stringEnd, stop, List.drop_left]

theorem literal_at_spec {s front rest : List Char} {x : Context} (split : s = front ++ x.code.reverse ++ rest)
    (before : x.before = (front ++ x.code.reverse).getLast?) (more : rest ≠ []) :
    literalAt g (bytes s) (size front) (size (front ++ x.code.reverse)) x.last =
      .ok ((x.literal? g rest).map fun l =>
        ⟨l.kind, size (front ++ x.code.reverse), size (front ++ x.code.reverse) + size (rest.take l.length), l.opening,
          l.closing⟩) := by
  have quotes := find_quote ascii (front ++ x.code.reverse) rest x.code x.last
  rw [← before] at quotes
  rw [literalAt, split, bytes_from, ok_bind, line_markers ascii, block_markers ascii, quotes, ok_bind,
    regex_at_spec front x.code rest x.before x.last more]
  unfold Context.literal? Literal.at?
  by_cases line : g.lineComments.any (·.isPrefixOf rest) = true
  · obtain ⟨found, stop, length⟩ := newline_from_spec (front ++ x.code.reverse) rest
    rw [if_pos line, if_pos line, stop, ok_bind, length_bytes, length]
    rfl
  rw [if_neg line, if_neg line]
  cases block : g.blockComments.find? (·.1.isPrefixOf rest) with
  | some markers =>
    have member := List.mem_of_find?_eq_some block
    have here : markers.1.isPrefixOf rest = true := by simpa using List.find?_some block
    simp only [Option.map_some]
    rw [block_comment_spec ascii _ member here, ok_bind, size_of_ascii (ascii.asciiBlock markers member).1]
    rfl
  | none =>
    have quote : (g.quotes.find? fun style => style.opening.isPrefixOf rest &&
        Literal.QuoteStyle.opensAfter style x.before) = (Context.mk x.before x.code x.last).quote? g rest := rfl
    simp only [quote]
    cases found : (Context.mk x.before x.code x.last).quote? g rest with
    | some style =>
      have member := List.mem_of_find?_eq_some found
      have here : style.opening.isPrefixOf rest = true := by
        rw [← quote] at found
        exact (Bool.and_eq_true_iff.mp (by simpa using List.find?_some found)).1
      simp only [Option.map_some]
      rw [quoted_spec ascii _ member here, ok_bind, size_of_ascii (ascii.asciiQuote style member).1,
        size_of_ascii (ascii.asciiQuote style member).2]
      rfl
    | none =>
      obtain ⟨c, tail, rfl⟩ := List.exists_cons_of_ne_nil more
      simp only [Context.slash?.eq_def]
      rfl

-- No literal begins within a character.
theorem literal_at_high {bs : List UInt8} {codeStart j : Nat} {b : UInt8} {more : List UInt8} (here : bs.drop j = b :: more)
    (high : 128 ≤ b.toNat) (last : Option SegmentKind) : literalAt g bs codeStart j last = .ok none := by
  have line : (g.lineComments.any fun marker => (bytes marker).isPrefixOf (b :: more)) = false := by
    rw [List.any_eq_false]
    intro marker member
    rw [not_prefix_high (ascii.asciiLine marker member) (ascii.line marker member).1 high]
    exact Bool.false_ne_true
  have block : (g.blockComments.find? fun markers => (bytes markers.1).isPrefixOf (b :: more)) = none := by
    rw [List.find?_eq_none]
    intro markers member
    rw [not_prefix_high (ascii.asciiBlock markers member).1 (ascii.block markers member).1.1 high]
    exact Bool.false_ne_true
  have quote : g.quotes.findM? (opensHere bs j) = .ok none := by
    have closed : ∀ style ∈ g.quotes, opensHere bs j style = .ok false := by
      intro style member
      rw [opensHere, bytes_from_of_drop here, ok_bind,
        not_prefix_high (ascii.asciiQuote style member).1 (ascii.quote style member).1.1 high]
      rfl
    rw [find_m_of_ok closed, List.find?_eq_none.mpr fun _ _ => Bool.false_ne_true]
  rw [literalAt, bytes_from_of_drop here, ok_bind, if_neg (by rw [line]; exact Bool.false_ne_true), block]
  simp only [quote, ok_bind]
  rw [regexAt, byte_at_of_drop here, ok_bind, high_is_not (by decide) high]
  cases g.regexLiterals <;> rfl

section

variable {s front : List Char} {x : Context} {done : List Segment}

omit ascii in
theorem segment_step_end (split : s = front ++ x.code.reverse) :
    segmentStep g (bytes s) ⟨size front, size (front ++ x.code.reverse), done.map Segment.span⟩ =
      .ok (.inr ((done.reverse ++ Segment.ofCode (size front) x.code).map Segment.span)) := by
  have length : (bytes s).length = size (front ++ x.code.reverse) := by rw [length_bytes, split]
  have whole : done.reverse ++ Segment.ofCode (size front) x.code =
      ((Segment.ofCode (size front) x.code).reverse ++ done).reverse := by
    rw [List.reverse_append, List.reverse_reverse]
  rw [segmentStep, length, if_neg (Nat.lt_irrefl _), flush_spans, whole, List.map_reverse]
  rfl

theorem segment_step {c : Char} {rest : List Char} (split : s = front ++ x.code.reverse ++ c :: rest)
    (before : x.before = (front ++ x.code.reverse).getLast?) (last : done.head?.map (·.kind) = x.last) :
    segmentStep g (bytes s) ⟨size front, size (front ++ x.code.reverse), done.map Segment.span⟩ =
      match x.literal? g (c :: rest) with
      | some l =>
        .ok (.inl ⟨size (front ++ x.code.reverse ++ (c :: rest).take l.length),
          size (front ++ x.code.reverse ++ (c :: rest).take l.length),
          (Segment.ofLiteral (size (front ++ x.code.reverse)) l ((c :: rest).take l.length) ::
            ((Segment.ofCode (size front) x.code).reverse ++ done)).map Segment.span⟩)
      | none => .ok (.inl ⟨size front, size (front ++ x.code.reverse) + 1, done.map Segment.span⟩) := by
  rw [segmentStep, if_pos (index_lt_of_split split), last_kind, last,
    literal_at_spec ascii split before (List.cons_ne_nil c rest), ok_bind, flush_spans]
  cases x.literal? g (c :: rest) with
  | none => rfl
  | some l =>
    dsimp only
    rw [size_append _ ((c :: rest).take l.length)]
    rfl

theorem segment_skips (codeStart stop : Nat) (done : List Span) :
    SkipsHigh (segmentStep g (bytes s)) (fun j => Scan.mk codeStart j done) (bytes s) stop := by
  intro j b more beyond high _
  rw [segmentStep, if_pos (lt_length_of_drop beyond), literal_at_high ascii beyond high]
  rfl

end

-- The induction is on the tokens of the text; the code before a place is what the context has of it.
theorem segment_loop (x : Context) (s front rest : List Char) (done : List Segment) (fuel : Nat)
    (split : s = front ++ x.code.reverse ++ rest) (before : x.before = (front ++ x.code.reverse).getLast?)
    (last : done.head?.map (·.kind) = x.last) (enough : size rest < fuel) :
    loop (segmentStep g (bytes s)) fuel ⟨size front, size (front ++ x.code.reverse), done.map Segment.span⟩ =
      .ok ((done.reverse ++ Segment.ofTokens (size front) x.code (tokensFrom g x rest)).map Segment.span) := by
  induction x, rest using tokensFrom.induct g generalizing front done fuel with
  | case1 x =>
    obtain ⟨fuel, rfl⟩ := Nat.exists_eq_add_one.mpr (Nat.zero_lt_of_lt enough)
    rw [List.append_nil] at split
    rw [loop_done (segment_step_end split), tokens_from_nil, Segment.ofTokens]
  | case2 x c rest l found text ih =>
    obtain ⟨fuel, rfl⟩ := Nat.exists_eq_add_one.mpr (Nat.zero_lt_of_lt enough)
    obtain ⟨low, _⟩ := literal_length ascii.toLegible found
    obtain ⟨parts, _⟩ := literal_split ascii.toLegible found
    have taken : (c :: rest).take l.length = text := by
      rw [← Nat.sub_add_cancel low, List.take_succ_cons]
    have step := segment_step ascii split before last
    simp only [found, taken] at step
    have smaller : size (rest.drop (l.length - 1)) < fuel := by
      have sizes := congrArg size parts
      have positive := Char.utf8Size_pos c
      rw [size_append, size_cons c (rest.take _)] at sizes
      omega
    have place : size front + size x.code = size (front ++ x.code.reverse) := by
      rw [size_append, Segment.size_reverse]
    have lastOf : text.getLast? = (front ++ x.code.reverse ++ text ++ [].reverse).getLast? := by
      rw [List.reverse_nil, List.append_nil, List.getLast?_append, List.getLast?_cons, Option.some_or]
    have next := ih (front ++ x.code.reverse ++ text)
      (Segment.ofLiteral (size (front ++ x.code.reverse)) l text :: ((Segment.ofCode (size front) x.code).reverse ++ done)) fuel
      (by rw [split, parts]; simp [Context.afterLiteral, text]) lastOf rfl smaller
    have fresh : (Context.afterLiteral l.kind text).code.reverse = [] := rfl
    rw [fresh, List.append_nil] at next
    rw [loop_next step, next, tokens_from_literal found, Segment.ofTokens, place, ← size_append, List.reverse_cons,
      List.reverse_append, List.reverse_reverse]
    simp only [List.append_assoc, List.singleton_append]
    rfl
  | case3 x c rest none ih =>
    obtain ⟨fuel, rfl⟩ := Nat.exists_eq_add_one.mpr (Nat.zero_lt_of_lt enough)
    have positive := Char.utf8Size_pos c
    rw [size_cons] at enough
    have step := segment_step ascii split before last
    simp only [none] at step
    have code : front ++ (x.afterCode c).code.reverse = front ++ x.code.reverse ++ [c] := by simp [Context.afterCode]
    have next := ih front done (fuel + 1 - c.utf8Size) (by rw [split, code]; simp) (by rw [code]; simp [Context.afterCode])
      last (by omega)
    rw [code] at next
    rw [loop_char (fun j => Scan.mk (size front) j (done.map Segment.span)) split step (segment_skips ascii _ _ _) (by omega),
      next, tokens_from_code none]
    rfl

theorem segment_eq (s : List Char) : segment g s = .ok ((segments g s).map Segment.span) := by
  have whole := segment_loop ascii {} s [] s [] ((bytes s).length + 1) rfl rfl rfl (by rw [length_bytes]; omega)
  rw [segments_eq]
  exact whole

theorem strip_comments_eq (s : List Char) : stripComments g s = .ok (SnippetReview.stripComments g s) := by
  have parts := blank_spans s [] [] (segments g s) (contiguous_segments g s) (by simp [flat_map_text_segments])
  rw [stripComments, segment_eq ascii, ok_bind, parts, ok_bind]
  rfl

end

end Bytewise

end SnippetReview
