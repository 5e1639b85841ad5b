import SnippetReview.Proofs.Bytewise.Extracting

set_option autoImplicit false

namespace SnippetReview

open Text

namespace QuoteStyle

-- What is written between the delimiters for a string.
def encode (style : QuoteStyle) (s : List Char) : List Char :=
  match style.escape with
  | .backslash => s.flatMap fun c => if c = '\\' ∨ c ∈ style.closing then ['\\', c] else [c]
  | .doubled => s.flatMap fun c => if c ∈ style.closing then [c, c] else [c]
  | .never => s

-- The strings that a style has a literal for: all, or those of one line. Where nothing is escaped, the
-- closing delimiter begins nowhere before the end of the string, also not with the one behind the string.
def Admits (style : QuoteStyle) (s : List Char) : Prop :=
  match style.escape with
  | .backslash => style.multiline = true ∨ '\n' ∉ s
  | .doubled => True
  | .never => ∀ i < s.length, ¬ style.closing <+: (s ++ style.closing).drop i

-- The earlier of two styles does not open where the later one is meant: its delimiter is no beginning of the
-- later one's, and goes on behind it with two closing quotes only.
def Outranks (earlier later : QuoteStyle) : Prop :=
  ¬ earlier.opening <+: later.opening ∧
    (later.opening <+: earlier.opening →
      later.escape ≠ .doubled ∧ later.closing.length = 1 ∧ earlier.opening = later.opening ++ later.closing ++ later.closing)

instance (earlier later : QuoteStyle) : Decidable (Outranks earlier later) := inferInstanceAs (Decidable (_ ∧ (_ → _)))

structure Escapes (style : QuoteStyle) : Prop where
  closes : Marker style.closing
  plain : '\\' ∉ style.closing
  multiline : style.escape ≠ .backslash → style.multiline = true
  single : style.escape = .doubled → style.closing.length = 1

end QuoteStyle

section

variable {style : QuoteStyle} {s rest : List Char}

theorem quoted_length_pass {c : Char} {tail : List Char} (apart : ¬ style.closing <+: c :: tail)
    (stays : breaksAt style c = false) (escaped : Bool) (count : Nat) :
    Literal.quotedLength style escaped 0 count (c :: tail) =
      Literal.quotedLength style (c == '\\' && !escaped) 0 (count + 1) tail := by
  rw [quoted_length_cons, if_neg, if_neg, if_neg]
  · rw [stays]
    exact Bool.false_ne_true
  · exact fun closes => apart (prefix_of_closes closes)
  · exact fun doubled => apart ((List.prefix_append _ _).trans (doubled_at_iff.mp doubled).2)

theorem quoted_length_escaped {c : Char} {tail : List Char} (kind : style.escape = .backslash)
    (stays : breaksAt style c = false) (count : Nat) :
    Literal.quotedLength style true 0 count (c :: tail) = Literal.quotedLength style false 0 (count + 1) tail := by
  rw [quoted_length_cons, if_neg, if_neg, if_neg, Bool.not_true, Bool.and_false]
  · rw [stays]
    exact Bool.false_ne_true
  · simp [closesAt, kind]
  · simp [doubledAt, kind]

theorem quoted_length_close (closes : style.closing ≠ []) {escaped : Bool} (free : style.escape = .backslash → escaped = false)
    (once : style.escape = .doubled → ¬ style.closing <+: rest) (count : Nat) :
    Literal.quotedLength style escaped 0 count (style.closing ++ rest) = (count + style.closing.length, true) := by
  have stands : closesAt style escaped (style.closing ++ rest) = true := by
    have begins : style.closing.isPrefixOf (style.closing ++ rest) = true :=
      List.isPrefixOf_iff_prefix.mpr (List.prefix_append _ _)
    rw [closesAt, begins, Bool.true_and, Bool.not_eq_true', Bool.and_eq_false_imp]
    exact fun kind => free (beq_iff_eq.mp kind)
  have single : ¬ doubledAt style (style.closing ++ rest) = true := by
    rw [doubled_at_iff, List.prefix_append_right_inj]
    exact fun doubled => once doubled.1 doubled.2
  obtain ⟨q, more, parts⟩ := List.exists_cons_of_ne_nil (List.append_ne_nil_of_left_ne_nil closes rest)
  rw [parts] at stands single ⊢
  rw [quoted_length_cons, if_neg single, if_pos stands]

theorem not_prefix_of_heads {marker : List Char} (nonempty : marker ≠ []) (apart : s.head? ≠ marker.head?) :
    ¬ marker <+: s := by
  obtain ⟨m, more, rfl⟩ := List.exists_cons_of_ne_nil nonempty
  rintro ⟨tail, rfl⟩
  exact apart rfl

theorem not_prefix_of_not_mem {marker : List Char} {c : Char} {tail : List Char} (nonempty : marker ≠ []) (apart : c ∉ marker) :
    ¬ marker <+: c :: tail :=
  not_prefix_of_heads nonempty fun same => apart (List.mem_of_head? same.symm)

theorem quoted_length_backslash (sound : style.Escapes) (kind : style.escape = .backslash)
    (admits : style.multiline = true ∨ '\n' ∉ s) (count : Nat) :
    Literal.quotedLength style false 0 count (style.encode s ++ (style.closing ++ rest)) =
      (count + (style.encode s).length + style.closing.length, true) := by
  unfold QuoteStyle.encode
  rw [kind]
  dsimp only
  induction s generalizing count with
  | nil => exact quoted_length_close sound.closes.1 (fun _ => rfl) (fun doubled => by rw [kind] at doubled; contradiction) count
  | cons c s ih =>
    have later := ih (admits.imp_right fun plain member => plain (List.mem_cons_of_mem c member))
    rw [List.flatMap_cons, List.append_assoc, List.length_append]
    by_cases special : c = '\\' ∨ c ∈ style.closing
    · have feed : c ≠ '\n' := by
        rintro rfl
        rcases special with same | member
        · exact absurd same (by decide)
        · exact (sound.closes.2 _ member).2 rfl
      rw [if_pos special, List.cons_append, List.singleton_append,
        quoted_length_pass (not_prefix_of_not_mem sound.closes.1 sound.plain) (by simp [breaksAt]) false count]
      rw [show ('\\' == '\\' && !false) = true from rfl, quoted_length_escaped kind (by simp [breaksAt, feed]), later,
        List.length_cons, List.length_singleton]
      congr 1
      omega
    · have apart := not_or.mp special
      have stays : breaksAt style c = false := by
        rw [breaksAt, Bool.and_eq_false_imp, Bool.not_eq_true']
        intro line
        have plain := admits.resolve_left (by rw [line]; exact Bool.false_ne_true)
        exact beq_eq_false_iff_ne.mpr fun same => plain (same ▸ List.mem_cons_self)
      rw [if_neg special, List.singleton_append, quoted_length_pass (not_prefix_of_not_mem sound.closes.1 apart.2) stays,
        beq_eq_false_iff_ne.mpr apart.1, Bool.false_and, later, List.length_singleton]
      congr 1
      omega

theorem quoted_length_doubled (sound : style.Escapes) (kind : style.escape = .doubled)
    (apart : ¬ style.closing <+: rest) (escaped : Bool) (count : Nat) :
    Literal.quotedLength style escaped 0 count (style.encode s ++ (style.closing ++ rest)) =
      (count + (style.encode s).length + style.closing.length, true) := by
  obtain ⟨q, quote⟩ := List.length_eq_one_iff.mp (sound.single kind)
  have multiline : style.multiline = true := sound.multiline (by rw [kind]; decide)
  unfold QuoteStyle.encode
  rw [kind]
  dsimp only
  induction s generalizing escaped count with
  | nil => exact quoted_length_close sound.closes.1 (fun other => by rw [kind] at other; contradiction) (fun _ => apart) count
  | cons c s ih =>
    rw [List.flatMap_cons, List.append_assoc, List.length_append]
    by_cases special : c ∈ style.closing
    · have same : c = q := by rwa [quote, List.mem_singleton] at special
      -- The reader skips the second of two quotes.
      have twice : ∀ tail, doubledAt style (c :: c :: tail) = true := fun tail =>
        doubled_at_iff.mpr ⟨kind, tail, by rw [quote, same]; rfl⟩
      rw [if_pos special, List.cons_append, List.singleton_append, quoted_length_cons, if_pos (twice _), sound.single kind,
        Literal.quotedLength, ih, sound.single kind, List.length_cons, List.length_singleton]
      congr 1
      omega
    · rw [if_neg special, List.singleton_append, quoted_length_pass (not_prefix_of_not_mem sound.closes.1 special)
        (by simp [breaksAt, multiline]), ih, List.length_singleton]
      congr 1
      omega

theorem not_closed_of_admits {c : Char} (kind : style.escape = .never) (admits : style.Admits (c :: s)) (rest : List Char) :
    ¬ style.closing <+: c :: s ++ (style.closing ++ rest) ∧ style.Admits s := by
  unfold QuoteStyle.Admits at *
  rw [kind] at *
  dsimp only at *
  constructor
  · intro stands
    rw [← List.append_assoc] at stands
    have inside := List.prefix_of_prefix_length_le stands (List.prefix_append (c :: s ++ style.closing) rest)
      (by rw [List.length_append]; exact Nat.le_add_left _ _)
    exact admits 0 (Nat.succ_pos _) inside
  · intro i low
    exact admits (i + 1) (Nat.succ_lt_succ low)

theorem quoted_length_never (sound : style.Escapes) (kind : style.escape = .never) (admits : style.Admits s) (escaped : Bool)
    (count : Nat) :
    Literal.quotedLength style escaped 0 count (style.encode s ++ (style.closing ++ rest)) =
      (count + (style.encode s).length + style.closing.length, true) := by
  have multiline : style.multiline = true := sound.multiline (by rw [kind]; decide)
  have same : ∀ s, style.encode s = s := fun s => by rw [QuoteStyle.encode, kind]
  rw [same]
  induction s generalizing escaped count with
  | nil =>
    exact quoted_length_close sound.closes.1 (fun other => by rw [kind] at other; contradiction)
      (fun other => by rw [kind] at other; contradiction) count
  | cons c s ih =>
    obtain ⟨apart, later⟩ := not_closed_of_admits kind admits rest
    rw [List.cons_append] at *
    rw [quoted_length_pass apart (by simp [breaksAt, multiline]), ih later, List.length_cons]
    congr 1
    omega

theorem quoted_length_encode (sound : style.Escapes) (admits : style.Admits s) (apart : rest.head? ≠ style.closing.head?)
    (count : Nat) :
    Literal.quotedLength style false 0 count (style.encode s ++ (style.closing ++ rest)) =
      (count + (style.encode s).length + style.closing.length, true) := by
  cases kind : style.escape with
  | backslash =>
    rw [QuoteStyle.Admits, kind] at admits
    exact quoted_length_backslash sound kind admits count
  | doubled => exact quoted_length_doubled sound kind (not_prefix_of_heads sound.closes.1 apart) false count
  | never => exact quoted_length_never sound kind admits false count

theorem not_closed_of_encode {c : Char} (sound : style.Escapes) (kind : style.escape ≠ .doubled)
    (admits : style.Admits (c :: s)) : ¬ style.closing <+: style.encode (c :: s) ++ (style.closing ++ rest) := by
  cases escape : style.escape with
  | backslash =>
    rw [QuoteStyle.encode, escape]
    dsimp only
    rw [List.flatMap_cons]
    split
    · exact not_prefix_of_not_mem sound.closes.1 sound.plain
    next special => exact not_prefix_of_not_mem sound.closes.1 (not_or.mp special).2
  | doubled => exact absurd escape kind
  | never =>
    rw [QuoteStyle.encode, escape]
    exact (not_closed_of_admits escape admits rest).1

theorem not_twice_of_encode (sound : style.Escapes) (kind : style.escape ≠ .doubled) (admits : style.Admits s)
    (apart : rest.head? ≠ style.closing.head?) :
    ¬ style.closing ++ style.closing <+: style.encode s ++ (style.closing ++ rest) := by
  cases s with
  | nil =>
    have empty : style.encode [] = [] := by
      unfold QuoteStyle.encode
      split <;> rfl
    rw [empty, List.nil_append, List.prefix_append_right_inj]
    exact not_prefix_of_heads sound.closes.1 apart
  | cons c s => exact fun twice => not_closed_of_encode sound kind admits ((List.prefix_append _ _).trans twice)

end

-- What a grammar's quotes keep to: comments begin otherwise, longer delimiters come first, and the closing
-- ones can be escaped.
structure Grammar.Quotable (g : Grammar) : Prop extends g.Legible where
  uncommented : ∀ style ∈ g.quotes, ∀ marker ∈ g.lineComments ++ g.blockComments.map (·.1), style.opening.head? ≠ marker.head?
  outranks : g.quotes.Pairwise QuoteStyle.Outranks
  plain : ∀ style ∈ g.quotes, '\\' ∉ style.closing
  multiline : ∀ style ∈ g.quotes, style.escape ≠ .backslash → style.multiline = true
  single : ∀ style ∈ g.quotes, style.escape = .doubled → style.closing.length = 1

theorem Host.grammar_quotable (host : Host) : host.grammar.Quotable :=
  { host.grammar_legible with
    uncommented := by cases host <;> decide
    outranks := by cases host <;> decide
    plain := by cases host <;> decide
    multiline := by cases host <;> decide
    single := by cases host <;> decide }

section

variable {g : Grammar} {style : QuoteStyle} {s rest : List Char}

theorem Grammar.Quotable.escapes (quotable : g.Quotable) (known : style ∈ g.quotes) : style.Escapes where
  closes := (quotable.quote style known).2
  plain := quotable.plain style known
  multiline := quotable.multiline style known
  single := quotable.single style known

theorem not_comment_of_quote (quotable : g.Quotable) (known : style ∈ g.quotes) (later : List Char) :
    g.beginsComment (style.opening ++ later) = false := by
  have apart : ∀ marker ∈ g.lineComments ++ g.blockComments.map (·.1), Marker marker →
      ¬ marker.isPrefixOf (style.opening ++ later) = true := by
    intro marker member mark
    rw [List.isPrefixOf_iff_prefix]
    refine not_prefix_of_heads mark.1 ?_
    obtain ⟨q, more, opening⟩ := List.exists_cons_of_ne_nil (quotable.quote style known).1.1
    have other := quotable.uncommented style known marker member
    rwa [opening] at other ⊢
  rw [Grammar.beginsComment, Bool.or_eq_false_iff, List.any_eq_false, List.any_eq_false]
  constructor
  · exact fun marker member => apart marker (List.mem_append_left _ member) (quotable.line marker member)
  · exact fun markers member =>
      apart markers.1 (List.mem_append_right _ (List.mem_map_of_mem member)) (quotable.block markers member).1

theorem quote_of_encode (quotable : g.Quotable) (known : style ∈ g.quotes) (admits : style.Admits s)
    (apart : rest.head? ≠ style.closing.head?) :
    ({} : Context).quote? g (style.opening ++ (style.encode s ++ (style.closing ++ rest))) = some style := by
  have opens : ∀ style, Literal.QuoteStyle.opensAfter style none = true := fun _ => Bool.or_true _
  obtain ⟨front, back, parts⟩ := List.append_of_mem known
  rw [Context.quote?, List.find?_eq_some_iff_append]
  refine ⟨by simp [opens], front, back, parts, fun earlier member => ?_⟩
  have order := quotable.outranks
  rw [parts, List.pairwise_append] at order
  obtain ⟨shorter, longer⟩ := order.2.2 earlier member style List.mem_cons_self
  rw [opens, Bool.and_true, Bool.not_eq_true', Bool.eq_false_iff, Ne, List.isPrefixOf_iff_prefix]
  intro stands
  rcases List.prefix_or_prefix_of_prefix stands (List.prefix_append _ _) with inside | beyond
  · exact shorter inside
  · obtain ⟨kind, -, twice⟩ := longer beyond
    rw [twice, List.append_assoc, List.prefix_append_right_inj] at stands
    exact not_twice_of_encode (quotable.escapes known) kind admits apart stands

theorem literal_of_encode (quotable : g.Quotable) (known : style ∈ g.quotes) (admits : style.Admits s)
    (apart : rest.head? ≠ style.closing.head?) :
    ({} : Context).literal? g (style.opening ++ style.encode s ++ style.closing ++ rest) =
      some ⟨.quoted, (style.opening ++ style.encode s ++ style.closing).length, style.opening.length,
        style.closing.length⟩ := by
  rw [List.append_assoc, List.append_assoc, Context.literal_quoted (not_comment_of_quote quotable known _)
    (quote_of_encode quotable known admits apart), Literal.quoted, List.drop_left,
    quoted_length_encode (quotable.escapes known) admits apart, List.length_append, List.length_append]
  rfl

end

/-- Every string that a style has a literal for, written with its escapes, is read back as one closed literal, whatever
follows but for one more quote. Reading by byte indices finds the same segments. -/
theorem segments_of_encode (host : Host) {style : QuoteStyle} (known : style ∈ host.grammar.quotes) {s rest : List Char}
    (admits : style.Admits s) (apart : rest.head? ≠ style.closing.head?) :
    let literal := style.opening ++ style.encode s ++ style.closing
    ∃ first more, segments host.grammar (literal ++ rest) = first :: more ∧
      Bytewise.segment host.grammar (literal ++ rest) = .ok ((first :: more).map Segment.span) ∧
      first.kind = .quoted ∧ first.start = 0 ∧ first.text = literal ∧ first.isClosed = true ∧
      first.content = style.encode s := by
  intro literal
  have quotable := host.grammar_quotable
  have ends := (quotable.escapes known).closes.1
  have read := tokens_from_append (by simp [ends]) rfl (literal_of_encode quotable known admits apart)
  have bytes := Bytewise.segment_eq host.grammar_in_ascii (literal ++ rest)
  rw [segments_eq, tokens, read] at bytes
  refine ⟨_, _, by rw [segments_eq, tokens, read]; rfl, bytes, rfl, rfl, rfl, ?_, ?_⟩
  · simpa [Segment.isClosed, Segment.ofLiteral] using ends
  · simp [Segment.content, Segment.ofLiteral]

theorem segments_of_trailing_backslashes :
    let literal := "\"a\\\\\\\\\\\\\"".toList
    ∃ first more, segments Host.python.grammar (literal ++ ", b=1".toList) = first :: more ∧
      Bytewise.segment Host.python.grammar (literal ++ ", b=1".toList) = .ok ((first :: more).map Segment.span) ∧
      first.kind = .quoted ∧ first.start = 0 ∧ first.text = literal ∧ first.isClosed = true ∧
      first.content = "a\\\\\\\\\\\\".toList :=
  @segments_of_encode .python (.escaped "\"" "\"" false) (by decide) "a\\\\\\".toList ", b=1".toList
    (.inr (by decide)) (by decide)

end SnippetReview
