import SnippetReview.Proofs.Snippet.Passage

set_option autoImplicit false

namespace SnippetReview

open Text

namespace Grammar

def markers (g : Grammar) : List (List Char) :=
  g.lineComments ++ g.blockComments.map (·.1) ++ g.quotes.map (·.opening)

def clearAt (g : Grammar) (s : List Char) : Bool :=
  s.head? != some '/' && g.markers.all fun marker => !(marker.isPrefixOf s || s.isPrefixOf marker)

def silent (g : Grammar) : List Char → Bool
  | [] => true
  | c :: rest => g.clearAt (c :: rest) && g.silent rest

def reserved (g : Grammar) : List (List Char) :=
  match g.blockWords with
  | some words => words.closer :: (words.openers ++ words.lineOpeners)
  | none => []

-- A character of the code that neither changes the nesting nor begins a word that might.
def isFlat (g : Grammar) (c : Char) : Bool :=
  !isOpening c && !isClosing c && c != '<' && !(g.blockWords.isSome && (c.isAlpha || c == '_'))

-- Where a literal begins with a word character, the next one tells it from a word.
def plainWords (g : Grammar) : Bool :=
  g.markers.all fun marker =>
    match marker with
    | c :: d :: _ => !isWordish c || (!isWordish d && !isBreak d)
    | [c] => !isWordish c
    | [] => false

structure QuotesWith (g : Grammar) (q : Char) : Prop where
  line : ∀ marker ∈ g.lineComments, marker ≠ [] ∧ marker.head? ≠ some q
  block : ∀ markers ∈ g.blockComments, markers.1 ≠ [] ∧ markers.1.head? ≠ some q
  mark : q = '"' ∨ q = '\''
  known : ∃ style ∈ g.quotes, style.opening = [q]
  plain : ∀ style ∈ g.quotes, style.opening = [q] → style.closing = [q] ∧ style.escape = .backslash
  others : ∀ style ∈ g.quotes, style.opening ≠ [] ∧
    (style.opening.head? = some q → style.opening = [q] ∨ style.opening = [q, q, q])

end Grammar

section

variable {g : Grammar}

theorem mem_markers_of_begins {s : List Char} (begins : g.beginsComment s = true) :
    ∃ marker ∈ g.markers, marker <+: s := by
  unfold Grammar.beginsComment at begins
  rw [Bool.or_eq_true, List.any_eq_true, List.any_eq_true] at begins
  rcases begins with ⟨marker, member, stands⟩ | ⟨markers, member, stands⟩
  · exact ⟨marker, by simp [Grammar.markers, member], List.isPrefixOf_iff_prefix.mp stands⟩
  · refine ⟨markers.1, ?_, List.isPrefixOf_iff_prefix.mp stands⟩
    unfold Grammar.markers
    exact List.mem_append_left _ (List.mem_append_right _ (List.mem_map_of_mem member))

theorem mem_markers_of_quote {x : Context} {s : List Char} {style : QuoteStyle} (found : x.quote? g s = some style) :
    ∃ marker ∈ g.markers, marker <+: s := by
  have stands := List.find?_some found
  rw [Bool.and_eq_true] at stands
  refine ⟨style.opening, ?_, List.isPrefixOf_iff_prefix.mp stands.1⟩
  unfold Grammar.markers
  exact List.mem_append_right _ (List.mem_map_of_mem (List.mem_of_find?_eq_some found))

-- Without a marker or a slash there is no literal.
theorem literal_none_of_no_marker {c : Char} {rest : List Char} (slash : c ≠ '/')
    (none : ∀ marker ∈ g.markers, ¬ marker <+: c :: rest) (x : Context) : x.literal? g (c :: rest) = .none := by
  have clear : g.beginsComment (c :: rest) = false := by
    rw [Bool.eq_false_iff]
    intro begins
    obtain ⟨marker, member, stands⟩ := mem_markers_of_begins begins
    exact none marker member stands
  have unquoted : x.quote? g (c :: rest) = .none := by
    cases found : x.quote? g (c :: rest) with
    | none => rfl
    | some style =>
      obtain ⟨marker, member, stands⟩ := mem_markers_of_quote found
      exact absurd stands (none marker member)
  rw [Context.literal_slash clear unquoted]
  unfold Context.slash?
  split
  · rename_i split
    rw [List.cons.injEq] at split
    exact absurd split.1 slash
  · rfl

theorem literal_of_clear_at {c : Char} {rest : List Char} (clear : g.clearAt (c :: rest) = true) (later : List Char)
    (x : Context) : x.literal? g (c :: (rest ++ later)) = none := by
  unfold Grammar.clearAt at clear
  rw [Bool.and_eq_true, List.head?_cons, bne_iff_ne, List.all_eq_true] at clear
  refine literal_none_of_no_marker (by simpa using clear.1) ?_ x
  intro marker member stands
  have apart := clear.2 marker member
  simp only [Bool.not_eq_true', Bool.or_eq_false_iff] at apart
  rw [← List.cons_append] at stands
  rcases List.prefix_or_prefix_of_prefix stands (List.prefix_append (c :: rest) later) with shorter | longer
  · exact absurd (List.isPrefixOf_iff_prefix.mpr shorter) (by simp [apart.1])
  · exact absurd (List.isPrefixOf_iff_prefix.mpr longer) (by simp [apart.2])

theorem silent_suffix {done rest : List Char} (silent : g.silent (done ++ rest) = true) : g.silent rest = true := by
  induction done with
  | nil => exact silent
  | cons c done ih =>
    rw [List.cons_append, Grammar.silent, Bool.and_eq_true] at silent
    exact ih silent.2

theorem nesting_flat {n : Nesting} {c : Char} (flat : g.isFlat c = true) (angles : n.angles = 0) (before : Option Char)
    (rest : List Char) : n.after g before c rest = n := by
  unfold Grammar.isFlat at flat
  simp only [Bool.and_eq_true, Bool.not_eq_true', bne_iff_ne] at flat
  obtain ⟨⟨⟨opening, closing⟩, less⟩, _⟩ := flat
  have noLess : (c == '<') = false := by simpa using less
  unfold Nesting.after
  rw [opening, closing, noLess, angles]
  simp only [Bool.false_eq_true, if_false, Bool.false_and, Nat.lt_irrefl, decide_false, Bool.and_false]
  split
  · rw [← angles]
  · rfl

theorem nesting_step_flat {w : Walk} {c : Char} {rest : List Char} (stands : w.cursor.rest = c :: rest)
    (flat : g.isFlat c = true) (angles : w.nesting.angles = 0) : (w.step g).nesting = w.nesting := by
  have wordless : Walk.wordAt g w.cursor.before c rest = none := by
    unfold Grammar.isFlat at flat
    simp only [Bool.and_eq_true, Bool.not_eq_true'] at flat
    unfold Walk.wordAt
    rw [flat.2, Bool.false_and]
    rfl
  unfold Walk.step
  rw [stands]
  simp only [wordless]
  exact nesting_flat flat angles _ _

theorem passes_signs {base : Char → Bool} {cs : List Char} (silent : g.silent cs = true)
    (flat : cs.all g.isFlat = true) (bases : cs.all base = true) : Passes g base true cs := by
  rw [List.all_eq_true] at flat bases
  refine ⟨cs.map .code, flatten_map_code cs, by simp, ?_, ?_⟩
  · intro x later _
    refine tokens_from_code_all ?_ x
    intro c rest done split x
    rw [split] at silent
    have clear := silent_suffix silent
    rw [Grammar.silent, Bool.and_eq_true] at clear
    exact literal_of_clear_at clear.1 later x
  · intro w later _ stands angles
    refine moves_code bases [] ?_ w stands angles (by simp)
    intro done c rest split u stands angles _
    exact nesting_step_flat stands (flat c (by simp [split])) angles

theorem not_opening_of_wordish {c : Char} (wordish : isWordish c = true) :
    isOpening c = false ∧ isClosing c = false ∧ c ≠ '<' ∧ c ≠ '/' ∧ c ≠ ';' ∧ c ≠ '>' := by
  refine ⟨?_, ?_, ?_, ?_, ?_, ?_⟩
  · unfold isOpening
    rw [Bool.or_eq_false_iff, Bool.or_eq_false_iff]
    refine ⟨⟨?_, ?_⟩, ?_⟩ <;>
    · rw [beq_eq_false_iff_ne]
      rintro rfl
      exact absurd wordish (by decide)
  · unfold isClosing
    rw [Bool.or_eq_false_iff, Bool.or_eq_false_iff]
    refine ⟨⟨?_, ?_⟩, ?_⟩ <;>
    · rw [beq_eq_false_iff_ne]
      rintro rfl
      exact absurd wordish (by decide)
  all_goals
    rintro rfl
    exact absurd wordish (by decide)

theorem ident_of_wordish {c : Char} (wordish : isWordish c = true) : isIdentChar c = true := by
  unfold isIdentChar
  unfold isWordish at wordish
  rw [wordish, Bool.true_or]

theorem nesting_after_wordish {n : Nesting} {c : Char} (wordish : isWordish c = true) (before : Option Char)
    (rest : List Char) : n.after g before c rest = n := by
  obtain ⟨opening, closing, less, _, semicolon, greater⟩ := not_opening_of_wordish wordish
  unfold Nesting.after
  simp [opening, closing, less, semicolon, greater]

theorem nesting_step_wordish {w : Walk} {c : Char} {rest : List Char} (stands : w.cursor.rest = c :: rest)
    (wordish : isWordish c = true) (unreserved : ∀ word ∈ Walk.wordAt g w.cursor.before c rest, word ∉ g.reserved) :
    (w.step g).nesting = w.nesting := by
  unfold Walk.step
  rw [stands]
  simp only
  cases found : Walk.wordAt g w.cursor.before c rest with
  | none => exact nesting_after_wordish wordish _ _
  | some word =>
    have free := unreserved word found
    unfold Grammar.reserved at free
    cases worded : g.blockWords with
    | none => exact nesting_after_wordish wordish _ _
    | some words =>
      simp only [worded, List.mem_cons, List.mem_append, not_or] at free
      have effect : ∀ before after lineHasCode, words.effect before word after lineHasCode = .nothing := by
        intro before after lineHasCode
        unfold BlockWords.effect
        simp [free.1, free.2.1, free.2.2]
      simp only [effect]
      rfl

-- Behind the first character of a literal that a word might be taken for stands none that goes on or ends a word.
theorem literal_none_in_word (plain : g.plainWords = true) {c : Char} {rest later : List Char} (first : isWordish c = true)
    (wordish : rest.all isWordish = true) (follows : Follows false later) (x : Context) :
    x.literal? g (c :: (rest ++ later)) = none := by
  rw [List.all_eq_true] at wordish
  refine literal_none_of_no_marker (not_opening_of_wordish first).2.2.2.1 ?_ x
  intro marker member stands
  have telling := List.all_eq_true.mp plain marker member
  match marker, stands with
  | [], _ => contradiction
  | [d], stands =>
    rw [List.cons_prefix_cons] at stands
    simp [stands.1, first] at telling
  | d :: e :: more, stands =>
    rw [List.cons_prefix_cons] at stands
    simp only [stands.1, first, Bool.not_true, Bool.false_or, Bool.and_eq_true, Bool.not_eq_true'] at telling
    cases rest with
    | nil =>
      cases later with
      | nil => exact absurd (List.prefix_nil.mp stands.2) (List.cons_ne_nil _ _)
      | cons f later =>
        rw [List.nil_append, List.cons_prefix_cons] at stands
        have breaks : isBreak f = true := follows.resolve_left Bool.false_ne_true f rfl
        rw [← stands.2.1, telling.2] at breaks
        contradiction
    | cons f rest =>
      rw [List.cons_append, List.cons_prefix_cons] at stands
      have second : isWordish f = true := wordish f List.mem_cons_self
      rw [← stands.2.1, telling.1] at second
      contradiction

theorem word_at_whole {rest later : List Char} (wordish : rest.all isWordish = true) (follows : Follows false later) :
    (rest ++ later).takeWhile isIdentChar = rest := by
  rw [List.all_eq_true] at wordish
  rw [List.takeWhile_append_of_pos fun d inside => ident_of_wordish (wordish d inside)]
  cases later with
  | nil => simp
  | cons f later =>
    have breaks : isBreak f = true := follows.resolve_left Bool.false_ne_true f rfl
    unfold isBreak at breaks
    simp only [Bool.and_eq_true, Bool.not_eq_true'] at breaks
    simp [breaks.1.1.1]

theorem word_at_inner {c last : Char} {rest : List Char} (wordish : isWordish last = true) :
    Walk.wordAt g (some last) c rest = none := by
  unfold Walk.wordAt
  rw [Option.map_some, Option.getD_some, ident_of_wordish wordish, Bool.not_true, Bool.and_false]
  rfl

theorem passes_word {base : Char → Bool} {word : List Char} (plain : g.plainWords = true)
    (wordish : word.all isWordish = true) (bases : word.all base = true) (unreserved : word ∉ g.reserved) :
    Passes g base false word := by
  rw [List.all_eq_true] at wordish bases
  have memberOf : ∀ {done rest : List Char} {c : Char}, word = done ++ c :: rest → isWordish c = true :=
    fun split => wordish _ (by simp [split])
  have othersOf : ∀ {done rest : List Char} {c : Char}, word = done ++ c :: rest → rest.all isWordish = true :=
    fun split => List.all_eq_true.mpr fun d inside => wordish d (by simp [split, inside])
  refine ⟨word.map .code, flatten_map_code word, by simp, ?split, ?moves⟩
  case split =>
    intro x later follows
    refine tokens_from_code_all ?_ x
    intro c rest done split
    exact literal_none_in_word plain (memberOf split) (othersOf split) follows
  case moves =>
    intro w later follows stands angles
    refine moves_code bases [] ?_ w stands angles (by simp)
    intro done c rest split u stands _ before
    refine nesting_step_wordish stands (memberOf split) ?_
    intro found member
    rcases List.eq_nil_or_concat done with rfl | ⟨front, last, parts⟩
    · unfold Walk.wordAt at member
      split at member
      · rw [Option.mem_some_iff, word_at_whole (othersOf split) follows] at member
        rw [← member, ← List.nil_append (c :: rest), ← split]
        exact unreserved
      · contradiction
    · rw [List.concat_eq_append] at parts
      have behind := before (by simp [parts])
      rw [List.nil_append, parts, List.getLast?_concat] at behind
      rw [behind, word_at_inner (wordish last (by simp [split, parts]))] at member
      contradiction

theorem quoted_length_plain {style : QuoteStyle} {q : Char} (closing : style.closing = [q])
    (escape : style.escape = .backslash) {content : List Char} (plain : ∀ c ∈ content, c ≠ q ∧ c ≠ '\\' ∧ c ≠ '\n')
    (count : Nat) (later : List Char) :
    Literal.quotedLength style false 0 count (content ++ q :: later) = (count + content.length + 1, true) := by
  induction content generalizing count with
  | nil => simp [Literal.quotedLength, closing, escape]
  | cons c rest ih =>
    obtain ⟨other, unescaped, noFeed⟩ := plain c List.mem_cons_self
    have opens : [q].isPrefixOf (c :: (rest ++ q :: later)) = false := by
      rw [List.isPrefixOf_cons_cons, beq_eq_false_iff_ne.mpr (Ne.symm other), Bool.false_and]
    have next := ih (fun d member => plain d (List.mem_cons_of_mem c member)) (count + 1)
    rw [List.cons_append, Literal.quotedLength]
    simp only [closing, opens, beq_eq_false_iff_ne.mpr unescaped, beq_eq_false_iff_ne.mpr noFeed, Bool.false_and,
      Bool.and_false, Bool.false_eq_true, if_false]
    rw [next, List.length_cons]
    congr 1
    omega

theorem not_prefix_of_head {marker s : List Char} {q : Char} (other : marker ≠ [] ∧ marker.head? ≠ some q) :
    marker.isPrefixOf (q :: s) = false := by
  obtain ⟨c, rest, rfl⟩ := List.exists_cons_of_ne_nil other.1
  have different : c ≠ q := by simpa using other.2
  rw [List.isPrefixOf_cons_cons, beq_eq_false_iff_ne.mpr different, Bool.false_and]

-- Three quotes in a row would open another literal, but only a single quote stands here.
theorem not_prefix_of_single {q : Char} {content later : List Char} (plain : ∀ c ∈ content, c ≠ q)
    (ends : later.head? ≠ some q) : [q, q, q].isPrefixOf (q :: (content ++ q :: later)) = false := by
  cases content with
  | nil =>
    cases later with
    | nil => simp
    | cons c later =>
      have different : q ≠ c := fun same => ends (by rw [same]; rfl)
      rw [List.nil_append, List.isPrefixOf_cons_cons, List.isPrefixOf_cons_cons, List.isPrefixOf_cons_cons,
        beq_eq_false_iff_ne.mpr different, Bool.false_and, Bool.and_false, Bool.and_false]
  | cons c rest =>
    have different : q ≠ c := Ne.symm (plain c List.mem_cons_self)
    rw [List.cons_append, List.isPrefixOf_cons_cons, List.isPrefixOf_cons_cons, beq_eq_false_iff_ne.mpr different,
      Bool.false_and, Bool.and_false]

theorem literal_quoted_plain {q : Char} (quotes : g.QuotesWith q) {content later : List Char}
    (plain : ∀ c ∈ content, c ≠ q ∧ c ≠ '\\' ∧ c ≠ '\n') (ends : later.head? ≠ some q) (x : Context) :
    x.literal? g (q :: (content ++ q :: later)) = some ⟨.quoted, content.length + 2, 1, 1⟩ := by
  have clear : g.beginsComment (q :: (content ++ q :: later)) = false := by
    unfold Grammar.beginsComment
    rw [Bool.or_eq_false_iff, List.any_eq_false, List.any_eq_false]
    refine ⟨fun marker member => ?_, fun markers member => ?_⟩
    · rw [not_prefix_of_head (quotes.line marker member)]
      exact Bool.false_ne_true
    · rw [not_prefix_of_head (quotes.block markers member)]
      exact Bool.false_ne_true
  have opens : ∀ style ∈ g.quotes, (style.opening.isPrefixOf (q :: (content ++ q :: later))
      && Literal.QuoteStyle.opensAfter style x.before) = decide (style.opening = [q]) := by
    intro style member
    obtain ⟨nonempty, others⟩ := quotes.others style member
    by_cases single : style.opening = [q]
    · have plainMark : Literal.QuoteStyle.opensAfter style x.before = true := by
        unfold Literal.QuoteStyle.opensAfter
        rw [single]
        rcases quotes.mark with rfl | rfl <;> rfl
      simp [single, plainMark]
    · have apart : style.opening.isPrefixOf (q :: (content ++ q :: later)) = false := by
        by_cases same : style.opening.head? = some q
        · rw [(others same).resolve_left single]
          exact not_prefix_of_single (fun c inside => (plain c inside).1) ends
        · exact not_prefix_of_head ⟨nonempty, same⟩
      simp [apart, single]
  obtain ⟨style, found⟩ : ∃ style, x.quote? g (q :: (content ++ q :: later)) = some style := by
    obtain ⟨known, member, opening⟩ := quotes.known
    refine Option.isSome_iff_exists.mp ?_
    rw [Context.quote?, List.find?_isSome]
    exact ⟨known, member, by rw [opens known member, decide_eq_true opening]⟩
  have member : style ∈ g.quotes := List.mem_of_find?_eq_some found
  have opening : style.opening = [q] := by
    have holds := List.find?_some found
    rw [opens style member] at holds
    exact of_decide_eq_true holds
  obtain ⟨closing, escape⟩ := quotes.plain style member opening
  rw [Context.literal_quoted clear found, Literal.quoted, opening]
  simp only [List.length_cons, List.length_nil, List.drop_succ_cons, List.drop_zero]
  rw [quoted_length_plain closing escape plain, closing]
  simp only [if_true, List.length_cons, List.length_nil]
  congr 2
  omega

theorem passes_quoted {base : Char → Bool} {q : Char} (quotes : g.QuotesWith q) {content : List Char}
    (plain : ∀ c ∈ content, c ≠ q ∧ c ≠ '\\' ∧ c ≠ '\n') : Passes g base false (q :: (content ++ [q])) := by
  refine ⟨[.literal ⟨.quoted, content.length + 2, 1, 1⟩ (q :: (content ++ [q]))], by simp [flatten, Token.text], ?quoted,
    ?split, ?moves⟩
  case quoted =>
    intro l text member
    rw [List.mem_singleton, Token.literal.injEq] at member
    rw [member.1]
  case split =>
    intro x later follows
    have ends : later.head? ≠ some q := by
      intro head
      have breaks := follows.resolve_left Bool.false_ne_true q head
      rcases quotes.mark with rfl | rfl <;> exact absurd breaks (by decide)
    have found := literal_quoted_plain quotes plain ends x
    have whole : q :: (content ++ q :: later) = q :: (content ++ [q]) ++ later := by simp
    rw [whole] at found
    rw [tokens_from_append (List.cons_ne_nil _ _) (by simp) found]
    rfl
  case moves =>
    intro w later follows stands _
    have cursor := Walk.cursor_literal (g := g) (l := ⟨.quoted, content.length + 2, 1, 1⟩) SegmentKind.noConfusion stands
    have ink : isAsciiBlank q = false := by rcases quotes.mark with rfl | rfl <;> rfl
    refine ⟨cursor, rfl, ?_, ?_⟩
    · have last : (w.passToken g (.literal ⟨.quoted, content.length + 2, 1, 1⟩ (q :: (content ++ [q])))).previous =
          (w.passToken g (.literal ⟨.quoted, content.length + 2, 1, 1⟩ (q :: (content ++ [q])))).cursor.before := rfl
      rw [Walk.across_cons, Walk.across_nil, last, cursor, ← List.cons_append, last_ink_append, last_ink_singleton, ink,
        List.getLast?_concat]
      rfl
    · intro v member
      rw [Walk.seen_literal g w _ _ _ SegmentKind.noConfusion] at member
      contradiction

theorem not_alpha_of_bracket {c : Char} (bracket : isOpening c = true ∨ isClosing c = true) :
    (c.isAlpha || c == '_') = false := by
  unfold isOpening isClosing at bracket
  simp only [Bool.or_eq_true, beq_iff_eq] at bracket
  rcases bracket with ((rfl | rfl) | rfl) | ((rfl | rfl) | rfl) <;> rfl

theorem nesting_step_unworded {w : Walk} {c : Char} {rest : List Char} (stands : w.cursor.rest = c :: rest)
    (sign : (c.isAlpha || c == '_') = false) : (w.step g).nesting = w.nesting.after g w.cursor.before c rest := by
  have wordless : Walk.wordAt g w.cursor.before c rest = none := by
    unfold Walk.wordAt
    rw [sign, Bool.and_false, Bool.false_and]
    rfl
  unfold Walk.step
  rw [stands]
  simp only [wordless]

theorem nesting_step_opening {w : Walk} {c : Char} {rest : List Char} (opens : isOpening c = true)
    (stands : w.cursor.rest = c :: rest) : (w.step g).nesting = w.nesting.openBracket := by
  rw [nesting_step_unworded stands (not_alpha_of_bracket (.inl opens)), Nesting.after, if_pos opens]

theorem nesting_step_closing {w : Walk} {c : Char} {rest : List Char} (closes : isClosing c = true)
    (stands : w.cursor.rest = c :: rest) : (w.step g).nesting = w.nesting.closeBracket := by
  have notOpening : isOpening c = false := by
    unfold isClosing at closes
    simp only [Bool.or_eq_true, beq_iff_eq] at closes
    rcases closes with (rfl | rfl) | rfl <;> rfl
  rw [nesting_step_unworded stands (not_alpha_of_bracket (.inr closes)), Nesting.after, notOpening, if_pos closes]
  rfl

theorem passes_brackets {base inside : Char → Bool} {free : Bool} {opening closing : Char} {s : List Char}
    (inner : Passes g inside free s) (opens : isOpening opening = true) (closes : isClosing closing = true)
    (silentOpening : g.silent [opening] = true) (silentClosing : g.silent [closing] = true)
    (bases : base opening = true) : Passes g base true (opening :: (s ++ [closing])) := by
  obtain ⟨tokens, reads⟩ := inner
  have breaks : isBreak closing = true := by
    unfold isClosing at closes
    rw [Bool.or_eq_true, Bool.or_eq_true, beq_iff_eq, beq_iff_eq, beq_iff_eq] at closes
    rcases closes with (rfl | rfl) | rfl <;> decide
  have follows : ∀ later, Follows free (closing :: later) := by
    intro later
    right
    intro c same
    rw [List.head?_cons, Option.mem_some_iff] at same
    rwa [← same]
  have clear : ∀ c, g.silent [c] = true → ∀ (x : Context) (later : List Char), x.literal? g (c :: later) = none := by
    intro c silent x later
    rw [Grammar.silent, Bool.and_eq_true] at silent
    exact literal_of_clear_at silent.1 later x
  refine ⟨.code opening :: (tokens ++ [.code closing]), ?text, ?quoted, ?split, ?moves⟩
  case text => simp [flatten, Token.text, ← reads.text]
  case quoted =>
    intro l text member
    simp only [List.mem_cons, List.mem_append, reduceCtorEq, List.not_mem_nil, or_false, false_or] at member
    exact reads.quoted l text member
  case split =>
    intro x later _
    have whole : opening :: (s ++ [closing]) ++ later = opening :: (s ++ closing :: later) := by simp
    rw [whole, tokens_from_code (clear opening silentOpening x _), reads.split _ _ (follows later),
      tokens_from_code (clear closing silentClosing _ later)]
    simp [Token.after]
  case moves =>
    intro w later _ stands angles
    have opened := nesting_step_opening (g := g) opens stands
    have start := Walk.cursor_step (g := g) stands
    have across := reads.moves (w.step g) (closing :: later) (follows later) (by rw [start]; simp) (by rw [opened]; rfl)
    have end' : ((w.step g).across g tokens).cursor.rest = closing :: later := by rw [across.cursor]
    have closed := nesting_step_closing (g := g) closes end'
    have stop := Walk.cursor_step (g := g) end'
    have whole : w.across g (.code opening :: (tokens ++ [.code closing])) = ((w.step g).across g tokens).step g := by
      rw [Walk.across_cons, Walk.across_append]
      rfl
    have ink : isAsciiBlank closing = false := by
      unfold isClosing at closes
      rw [Bool.or_eq_true, Bool.or_eq_true, beq_iff_eq, beq_iff_eq, beq_iff_eq] at closes
      rcases closes with (rfl | rfl) | rfl <;> rfl
    constructor
    · rw [whole, stop, across.cursor, start, ← List.cons_append, List.getLast?_concat]
      simp only [size_append, size_cons, size_nil, Option.some_or, Cursor.mk.injEq, and_self, and_true]
      omega
    · rw [whole, closed, across.nesting, opened]
      rfl
    · rw [whole, Walk.previous_step end', ← List.cons_append, last_ink_append, last_ink_singleton, ink]
      rfl
    · intro v member
      have deeper : (w.step g).nesting.depth = w.nesting.depth + 1 := by
        rw [opened]
        simp only [Nesting.depth, Nesting.openBracket, angles]
        omega
      rw [Walk.seen_code stands, Walk.seen_append, Walk.seen_code end', Walk.seen_nil, List.mem_cons, List.mem_append,
        List.mem_singleton] at member
      rcases member with rfl | within | rfl
      · exact .inr ⟨rfl, bases⟩
      · left
        rcases across.seen v within with below | ⟨level, _⟩ <;> omega
      · left
        show w.nesting.depth < ((w.step g).across g tokens).nesting.depth
        rw [across.nesting]
        omega

end

end SnippetReview
