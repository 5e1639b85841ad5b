import Mathlib
import SnippetReview.Proofs.Host.NativeKeys
import SnippetReview.Proofs.Host.RenderedLiterals
import SnippetReview.Snippet.Extraction

set_option autoImplicit false

namespace SnippetReview

open Text

structure Statement.OnLine (g : Grammar) (s : List Char) : Prop where
  passes : Passes g (fun c => !g.separators.contains c) false s
  inked : Inked s
  line : '\n' ∉ s
  ends : ∀ c ∈ s.getLast?, continuationChars.contains c = false

structure Statement.Binds (g : Grammar) (receiver : List Char) (key : String) (literal s : List Char) : Prop
    extends Statement.OnLine g s where
  spreadless : isSpread g s = false
  sets : ∃ head tail, s = head ++ literal ++ tail ∧ ∀ start later, ∃ b,
    Binding.ofItem? g receiver (Slice.place start s later) = some b ∧ b.Sets key (start + size head) literal

theorem inked_append {s t : List Char} (nonempty : s ≠ []) (first : ∀ c ∈ s.head?, isBlank c = false) (last : Inked t) :
    Inked (s ++ t) := by
  obtain ⟨c, rest, rfl⟩ := List.exists_cons_of_ne_nil nonempty
  refine ⟨List.cons_ne_nil _ _, first, fun d ends => ?_⟩
  rw [List.getLast?_append_of_ne_nil _ last.nonempty] at ends
  exact last.last d ends

theorem inert_of_wordish {c : Char} (wordish : isWordish c = true) : isInert c = true := by
  obtain ⟨_, closing, _⟩ := not_opening_of_wordish wordish
  unfold isInert
  rw [closing, Bool.not_false, Bool.true_and, Bool.not_eq_true', Bool.eq_false_iff]
  intro member
  have noWord : ∀ d ∈ [',', ';', ':', '=', '\n'], isWordish d = false := by decide
  rw [noWord c (List.contains_iff_mem.mp member)] at wordish
  contradiction

-- No operator is made up of a sign and a letter before it.
theorem unpreceded (signs : List Char) (noWord : ∀ d ∈ signs, isWordish d = false) {before : Option Char}
    (wordish : ∀ c ∈ before, isWordish c = true) : (before.map signs.contains).getD false = false := by
  cases before with
  | none => rfl
  | some c =>
    rw [Option.map_some, Option.getD_some, Bool.eq_false_iff]
    intro member
    have other := noWord c (List.contains_iff_mem.mp member)
    rw [wordish c rfl] at other
    contradiction

namespace Binding

theorem of_item_first {g : Grammar} {receiver : List Char} {item : Slice} {style : BindingStyle} {b : Binding}
    (first : g.bindings.head? = some style) (read : ofStyle? g receiver item style = some b) :
    ofItem? g receiver item = some b := by
  obtain ⟨rest, styles⟩ := List.head?_eq_some_iff.mp first
  rw [ofItem?, styles, List.findSome?_cons, read]

end Binding

namespace Host

theorem separates_inert (host : Host) (c : Char) (inert : isInert c = true) : (!host.grammar.separators.contains c) = true := by
  have active : ∀ d ∈ host.grammar.separators, isInert d = false := by cases host <;> decide
  rw [Bool.not_eq_true', Bool.eq_false_iff]
  intro member
  rw [active c (List.contains_iff_mem.mp member)] at inert
  contradiction

theorem passes_name (host : Host) {key : List Char} (spells : host.Spells key) {base : Char → Bool}
    (bases : ∀ c, isWordish c = true → base c = true) : Passes host.grammar base false key := by
  have wordish := wordish_of_plain_key spells.plain
  refine passes_word host.assigns.words wordish ?_ spells.unreserved
  rw [List.all_eq_true] at wordish ⊢
  exact fun c member => bases c (wordish c member)

theorem spreadless_of_word (host : Host) {c : Char} {rest : List Char} (wordish : isWordish c = true) :
    isSpread host.grammar (c :: rest) = false := by
  have signs : ∀ marker ∈ host.grammar.spreadMarkers, marker.head?.map isWordish = some false := by cases host <;> decide
  unfold isSpread
  rw [List.any_eq_false]
  intro marker member
  have sign := signs marker member
  cases marker with
  | nil => contradiction
  | cons d more =>
    rw [List.head?_cons, Option.map_some, Option.some.injEq] at sign
    have other : d ≠ c := by
      rintro rfl
      rw [wordish] at sign
      contradiction
    rw [List.isPrefixOf_cons_cons, beq_eq_false_iff_ne.mpr other, Bool.false_and]
    exact Bool.false_ne_true

section

variable {host : Host} {key : String} {literal : List Char} {value : Value} {type : ValueType}

theorem sign_of_token {c : Char} {more : List Char} (style : host.grammar.bindings.head? = some (.token (c :: more))) :
    isIdentChar c = false := by
  cases host <;> cases style <;> decide

theorem binds_token (reads : Literal.Reads host.grammar literal value type) {base : Char → Bool} {free : Bool}
    {written : List Char} (passes : Passes host.grammar base free written) (nonempty : written ≠ [])
    (first : ∀ d ∈ written.head?, isBlank d = false) (lineWritten : '\n' ∉ written)
    (spreadless : ∀ later, isSpread host.grammar (written ++ later) = false)
    (clean : cleanKey? written = some key)
    (bases : ∀ d, base d = true → (!host.grammar.separators.contains d) = true)
    {c : Char} {more gap : List Char} (style : host.grammar.bindings.head? = some (.token (c :: more)))
    (sign : Passes host.grammar (fun d => !host.grammar.separators.contains d) true (c :: (more ++ gap)))
    (joins : free = true ∨ isBreak c = true) (clear : host.grammar.clearAt (c :: (more ++ gap)) = true)
    (absent : base c = false) (ascii : size (c :: more) = (c :: more).length)
    (plain : isLookalike (c :: more) written.getLast? (gap ++ literal).head? = false)
    (blank : ∀ c ∈ gap, isBlank c = true) (lineSign : '\n' ∉ c :: (more ++ gap))
    (receiver : List Char) : Statement.Binds host.grammar receiver key literal (written ++ c :: (more ++ gap) ++ literal) := by
  have value' : Passes host.grammar (fun d => !host.grammar.separators.contains d) false literal :=
    reads.passes.weaken host.separates_inert
  have signJoins : free = true ∨ ∃ d ∈ (c :: (more ++ gap)).head?, isBreak d = true :=
    joins.imp_right fun breaks => ⟨c, rfl, breaks⟩
  have whole : Inked (written ++ c :: (more ++ gap) ++ literal) := by
    refine inked_append (by simp [nonempty]) ?_ reads.inked
    rw [List.head?_append_of_ne_nil _ nonempty]
    exact first
  refine ⟨⟨((passes.weaken bases).append sign signJoins).append value' (.inl rfl), whole, ?line, ?ends⟩, ?spreadless, ?sets⟩
  case line =>
    intro member
    rw [List.mem_append, List.mem_append] at member
    rcases member with (before | between) | inside
    · exact lineWritten before
    · exact lineSign between
    · exact reads.line inside
  case ends =>
    rw [List.getLast?_append_of_ne_nil _ reads.inked.nonempty]
    exact reads.ends
  case spreadless =>
    rw [List.append_assoc]
    exact spreadless _
  case sets =>
    refine ⟨written ++ c :: (more ++ gap), [], by rw [List.append_nil], fun start later => ?_⟩
    obtain ⟨b, read, sets⟩ := Binding.of_token_place passes joins clear (sign_of_token style) absent ascii plain clean blank
      reads.inked start later
    have shape : written ++ c :: (more ++ gap) ++ literal = written ++ c :: more ++ (gap ++ literal) := by simp
    have head : written ++ c :: (more ++ gap) = written ++ c :: more ++ gap := by simp
    rw [shape, head]
    exact ⟨b, Binding.of_item_first style read, sets⟩

theorem line_of_key {key : List Char} (plain : isPlainKey key = true) : '\n' ∉ key := by
  intro member
  exact absurd (List.all_eq_true.mp (wordish_of_plain_key plain) '\n' member) (by decide)

theorem binds_key_token (reads : Literal.Reads host.grammar literal value type) (spells : host.Spells key.toList)
    {c : Char} {gap : List Char} (style : host.grammar.bindings.head? = some (.token [c]))
    (sign : Passes host.grammar (fun d => !host.grammar.separators.contains d) true (c :: ([] ++ gap)))
    (breaks : isBreak c = true) (clear : host.grammar.clearAt (c :: ([] ++ gap)) = true) (ascii : c.utf8Size = 1)
    (noWord : isWordish c = false) (plain : isLookalike [c] key.toList.getLast? (gap ++ literal).head? = false)
    (blank : ∀ c ∈ gap, isBlank c = true) (line : '\n' ∉ c :: ([] ++ gap)) (receiver : List Char) :
    Statement.Binds host.grammar receiver key literal (key.toList ++ c :: ([] ++ gap) ++ literal) := by
  have inked := inked_of_plain_key spells.plain
  have clean := clean_key_plain spells.plain
  rw [String.ofList_toList] at clean
  refine binds_token reads (passes_name host spells fun _ wordish => wordish) inked.nonempty inked.first
    (line_of_key spells.plain) ?_ clean (fun d wordish => host.separates_inert d (inert_of_wordish wordish)) style sign
    (.inr breaks) clear noWord ?_ plain blank line receiver
  · intro later
    obtain ⟨d, rest, shape⟩ := List.exists_cons_of_ne_nil inked.nonempty
    have wordish := wordish_of_plain_key spells.plain
    rw [shape, List.all_cons, Bool.and_eq_true] at wordish
    rw [shape]
    exact spreadless_of_word host wordish.1
  · simp [ascii]

theorem binds_receiver (reads : Literal.Reads host.grammar literal value type) (spells : host.Spells key.toList)
    {receiver : List Char} (names : host.Spells receiver) (style : host.grammar.bindings.head? = some .receiver)
    (dot : Passes host.grammar (fun d => !host.grammar.separators.contains d) true ['.'])
    (sign : Passes host.grammar (fun d => !host.grammar.separators.contains d) true [' ', '=', ' ']) :
    Statement.Binds host.grammar receiver key literal (receiver ++ '.' :: (key.toList ++ [' ', '=', ' '] ++ literal)) := by
  have separates : ∀ c, isWordish c = true → (!host.grammar.separators.contains c) = true :=
    fun c wordish => host.separates_inert c (inert_of_wordish wordish)
  have inkedReceiver := inked_of_plain_key names.plain
  have value' : Passes host.grammar (fun d => !host.grammar.separators.contains d) false literal :=
    reads.passes.weaken host.separates_inert
  have bound := ((passes_name host spells separates).append sign (.inr ⟨' ', rfl, rfl⟩)).append value' (.inl rfl)
  have passes := ((passes_name host names separates).append dot (.inr ⟨'.', rfl, rfl⟩)).append bound (.inl rfl)
  have shape : receiver ++ '.' :: (key.toList ++ [' ', '=', ' '] ++ literal) =
      receiver ++ ['.'] ++ (key.toList ++ [' ', '=', ' '] ++ literal) := by simp
  have split : receiver ++ '.' :: (key.toList ++ [' ', '=', ' '] ++ literal) =
      (receiver ++ '.' :: (key.toList ++ [' ', '=', ' '])) ++ literal := by simp
  refine ⟨⟨shape ▸ passes, ?inked, ?line, ?ends⟩, ?spreadless, ?sets⟩
  case inked =>
    rw [split]
    refine inked_append (by simp) ?_ reads.inked
    rw [List.head?_append_of_ne_nil _ inkedReceiver.nonempty]
    exact inkedReceiver.first
  case line =>
    intro member
    rw [shape, List.mem_append, List.mem_append, List.mem_append, List.mem_append] at member
    rcases member with (before | between) | (name | between) | inside
    · exact line_of_key names.plain before
    · exact absurd between (by decide)
    · exact line_of_key spells.plain name
    · exact absurd between (by decide)
    · exact reads.line inside
  case ends =>
    rw [split, List.getLast?_append_of_ne_nil _ reads.inked.nonempty]
    exact reads.ends
  case spreadless =>
    obtain ⟨d, rest, head⟩ := List.exists_cons_of_ne_nil inkedReceiver.nonempty
    have wordish := wordish_of_plain_key names.plain
    rw [head, List.all_cons, Bool.and_eq_true] at wordish
    rw [head]
    exact spreadless_of_word host wordish.1
  case sets =>
    refine ⟨receiver ++ '.' :: (key.toList ++ [' ', '=', ' ']), [], by rw [split, List.append_nil], fun start later => ?_⟩
    have closed := Grammar.opens_none_of_unreserved spells.unreserved
    obtain ⟨b, read, sets⟩ := Binding.of_receiver_place host.assigns (identifier_of_plain_key spells.plain) closed
      reads.inked receiver start later
    rw [String.ofList_toList] at sets
    exact ⟨b, Binding.of_item_first style read, sets⟩

theorem binds_setter (reads : Literal.Reads host.grammar literal value type) {receiver property : List Char}
    (names : host.Spells receiver) (method : host.Spells ("set".toList ++ property))
    (style : host.grammar.bindings.head? = some .setter)
    (dot : Passes host.grammar (fun d => !host.grammar.separators.contains d) true ['.'])
    (opening : host.grammar.silent ['('] = true) (closing : host.grammar.silent [')'] = true)
    (clear : host.grammar.clearAt [')'] = true) (level : (!host.grammar.separators.contains '(') = true)
    (capital : ∀ c ∈ property.head?, c.isUpper = true) (nonempty : property ≠ [])
    (named : Binding.propertyKey host.grammar.naming property = key) :
    Statement.Binds host.grammar receiver key literal
      (receiver ++ '.' :: ("set".toList ++ property ++ '(' :: (literal ++ [')']))) := by
  have separates : ∀ c, isWordish c = true → (!host.grammar.separators.contains c) = true :=
    fun c wordish => host.separates_inert c (inert_of_wordish wordish)
  have inkedReceiver := inked_of_plain_key names.plain
  have call : Passes host.grammar (fun d => !host.grammar.separators.contains d) true ('(' :: (literal ++ [')'])) :=
    passes_brackets reads.passes rfl rfl opening closing level
  have bound := (passes_name host method separates).append call (.inr ⟨'(', rfl, rfl⟩)
  have passes := ((passes_name host names separates).append dot (.inr ⟨'.', rfl, rfl⟩)).append bound (.inl rfl)
  have shape : receiver ++ '.' :: ("set".toList ++ property ++ '(' :: (literal ++ [')'])) =
      receiver ++ ['.'] ++ ("set".toList ++ property ++ '(' :: (literal ++ [')'])) := by simp
  have split : receiver ++ '.' :: ("set".toList ++ property ++ '(' :: (literal ++ [')'])) =
      (receiver ++ '.' :: ("set".toList ++ property ++ ['('])) ++ literal ++ [')'] := by simp
  have inert : ∀ c, isInert c = true → isClosing c = false := by
    intro c inert
    unfold isInert at inert
    rw [Bool.and_eq_true, Bool.not_eq_true'] at inert
    exact inert.1
  refine ⟨⟨shape ▸ passes.restrict false, ?inked, ?line, ?ends⟩, ?spreadless, ?sets⟩
  case inked =>
    rw [split]
    refine inked_append (by simp [inkedReceiver.nonempty]) ?_ ⟨by simp, by decide, by decide⟩
    rw [List.append_assoc, List.head?_append_of_ne_nil _ inkedReceiver.nonempty]
    exact inkedReceiver.first
  case line =>
    intro member
    rw [split] at member
    simp only [List.mem_append, List.mem_cons, List.not_mem_nil, or_false] at member
    rcases member with ((before | same | (verb | name) | same) | inside) | same
    · exact line_of_key names.plain before
    · exact absurd same (by decide)
    · exact absurd verb (by decide)
    · exact line_of_key method.plain (List.mem_append_right _ name)
    · exact absurd same (by decide)
    · exact reads.line inside
    · exact absurd same (by decide)
  case ends =>
    rw [split, List.getLast?_concat]
    decide
  case spreadless =>
    obtain ⟨d, rest, head⟩ := List.exists_cons_of_ne_nil inkedReceiver.nonempty
    have wordish := wordish_of_plain_key names.plain
    rw [head, List.all_cons, Bool.and_eq_true] at wordish
    rw [head]
    exact spreadless_of_word host wordish.1
  case sets =>
    refine ⟨receiver ++ '.' :: ("set".toList ++ property ++ ['(']), [')'], split, fun start later => ?_⟩
    have wordish : property.all isWordish = true := by
      have whole := wordish_of_plain_key method.plain
      rw [List.all_append, Bool.and_eq_true] at whole
      exact whole.2
    obtain ⟨b, read, sets⟩ :=
      Binding.of_setter_place reads.passes inert clear wordish capital nonempty reads.inked receiver start later
    rw [named] at sets
    exact ⟨b, Binding.of_item_first style read, sets⟩

end

theorem php_binds {key : String} {literal : List Char} {value : Value} {type : ValueType}
    (reads : Literal.Reads php.grammar literal value type) (plain : isPlainKey key.toList = true) (receiver : List Char) :
    Statement.Binds php.grammar receiver key literal
      ('\'' :: (key.toList ++ ['\'', ' ']) ++ '=' :: (['>'] ++ [' ']) ++ literal) := by
  have unescaped : ∀ c ∈ key.toList, c ≠ '\'' ∧ c ≠ '\\' ∧ c ≠ '\n' := by
    intro c member
    have wordish := List.all_eq_true.mp (wordish_of_plain_key plain) c member
    refine ⟨?_, ?_, ?_⟩ <;>
    · rintro rfl
      exact absurd wordish (by decide)
  have quoted : Passes php.grammar (fun c => c == ' ') false ('\'' :: (key.toList ++ ['\''])) :=
    SnippetReview.passes_quoted (quotes_with_mark php) unescaped
  have blank : Passes php.grammar (fun c => c == ' ') true [' '] := passes_signs (by decide) (by decide) (by decide)
  have written : Passes php.grammar (fun c => c == ' ') true ('\'' :: (key.toList ++ ['\'', ' '])) := by
    have both := quoted.append blank (.inr ⟨' ', rfl, rfl⟩)
    rwa [show '\'' :: (key.toList ++ ['\'']) ++ [' '] = '\'' :: (key.toList ++ ['\'', ' ']) by simp] at both
  have clean := clean_key_quoted plain
  rw [String.ofList_toList] at clean
  have last : ('\'' :: (key.toList ++ ['\'', ' '])).getLast? = some ' ' := by
    rw [show '\'' :: (key.toList ++ ['\'', ' ']) = ('\'' :: (key.toList ++ ['\''])) ++ [' '] by simp, List.getLast?_concat]
  refine binds_token reads written (List.cons_ne_nil _ _) ?_ ?_ (fun later => ?_) clean ?_ rfl
    (passes_signs (by decide) (by decide) (by decide)) (.inl rfl) (by decide) (by decide) (by decide) ?_ (by decide)
    (by decide) receiver
  · intro d head
    rw [List.head?_cons, Option.mem_some_iff] at head
    rw [← head]
    decide
  · intro member
    simp only [List.mem_cons, List.mem_append, List.not_mem_nil, or_false] at member
    rcases member with same | name | same | same
    · exact absurd same (by decide)
    · exact line_of_key plain name
    · exact absurd same (by decide)
    · exact absurd same (by decide)
  · rfl
  · intro d same
    rw [beq_iff_eq] at same
    rw [same]
    decide
  · rw [last]
    rfl

theorem plain_key_append {s t : List Char} (plain : isPlainKey s = true) (wordish : t.all isWordish = true) :
    isPlainKey (s ++ t) = true := by
  cases s with
  | nil => contradiction
  | cons c rest =>
    rw [isPlainKey, Bool.and_eq_true] at plain
    rw [List.cons_append, isPlainKey, List.all_append, plain.1, plain.2, wordish]
    rfl

theorem java_binds {key : String} {literal : List Char} {value : Value} {type : ValueType}
    (reads : Literal.Reads java.grammar literal value type) (known : key ∈ Catalog.standardEntries.map (·.key)) :
    let native := java.grammar.nativeKey key
    Statement.Binds java.grammar "options".toList native literal
      ("options".toList ++ '.' :: ("set".toList ++ (Naming.pascal native).toList ++ '(' :: (literal ++ [')']))) := by
  intro native
  obtain ⟨wordish, capital, nonempty, named⟩ := java_property known
  have names : java.Spells "options".toList := spells_of_unworded rfl (by decide)
  have method : java.Spells ("set".toList ++ (Naming.pascal native).toList) :=
    spells_of_unworded rfl (plain_key_append (by decide) wordish)
  have dot : Passes java.grammar (fun d => !java.grammar.separators.contains d) true ['.'] :=
    passes_signs (by decide) (by decide) (by decide)
  exact binds_setter reads names method rfl dot (by decide) (by decide) (by decide) (by decide) capital nonempty named

theorem python_literal_head (v : PlainValue) :
    ∃ c rest, (python.renderLiteral v.example').toList = c :: rest ∧ c ∈ ['"', '[', 'T', 'F'] := by
  cases v with
  | string text plain =>
    exact ⟨'"', text.toList ++ ['"'], render_string_eq python text, by decide⟩
  | strings items plain =>
    exact ⟨'[', python.interior (items.map String.toList) ++ [']'], render_list_eq python items, by decide⟩
  | boolean value =>
    cases value
    · exact ⟨'F', "alse".toList, by rfl, by decide⟩
    · exact ⟨'T', "rue".toList, by rfl, by decide⟩

theorem python_uncallable {c : Char} {rest : List Char} (known : c ∈ ['"', '[', 'T', 'F']) :
    python.grammar.callables.any (·.matchesIn (c :: rest)) = false := by
  have fails : python.grammar.callables.all (fun p => p.isAnchored && (p.ends ⟨Cursor.start (c :: rest), none⟩).isEmpty) =
      true := by
    simp only [List.mem_cons, List.not_mem_nil, or_false] at known
    rcases known with rfl | rfl | rfl | rfl <;> rfl
  rw [List.all_eq_true] at fails
  rw [List.any_eq_false]
  intro p member
  have fail := fails p member
  rw [Bool.and_eq_true] at fail
  simp [Pattern.matchesIn, Pattern.find_none_of_ends fail.1 fail.2]

theorem python_binds {key : String} {v : PlainValue} (spells : python.Spells key.toList) (receiver : List Char) :
    let literal := (python.renderLiteral v.example').toList
    let s := key.toList ++ '=' :: ([] ++ []) ++ literal
    Statement.Binds python.grammar receiver key literal s ∧ (boundText? python.grammar s).isSome = true ∧
      awaitsBody python.grammar s = false := by
  intro literal s
  have reads := python.reads_literal v
  obtain ⟨c, rest, head, known⟩ := python_literal_head v
  have wordish : ∀ d ∈ key.toList.getLast?, isWordish d = true := fun d last =>
    List.all_eq_true.mp (wordish_of_plain_key spells.plain) d (List.mem_of_getLast? last)
  have plain : isLookalike ['='] key.toList.getLast? ([] ++ literal).head? = false := by
    have before := unpreceded ['=', '!', '<', '>'] (by decide) wordish
    have after : ∀ d ∈ ['"', '[', 'T', 'F'], ['=', '>', '~'].contains d = false := by decide
    unfold isLookalike
    simp only [beq_self_eq_true, if_true, before, List.nil_append, literal, head, List.head?_cons, Option.map_some,
      Option.getD_some, after c known, Bool.or_false]
  have binds : Statement.Binds python.grammar receiver key literal s :=
    binds_key_token reads spells rfl (passes_signs (by decide) (by decide) (by decide)) (by decide) (by decide) (by decide)
      (by decide) plain (by decide) (by decide) receiver
  obtain ⟨found, same, offset, rest'⟩ : ∃ found, findToken python.grammar (key.toList ++ '=' :: ([] ++ [] ++ literal)) ['='] = some found ∧
      found.offset = size key.toList ∧ found.rest = [] ++ [] ++ literal :=
    find_token_passage (passes_name python spells fun _ wordish => wordish) (.inr rfl) (by decide) (by decide) (by decide) plain
  have shape : s = key.toList ++ '=' :: ([] ++ [] ++ literal) := by simp [s]
  have bound : boundText? python.grammar s = some literal := by
    have styles : python.grammar.bindings = [.token ['=']] := rfl
    unfold boundText?
    rw [styles, shape, List.findSome?_cons]
    simp only [same, Option.map_some, rest']
    rfl
  refine ⟨binds, by rw [bound]; rfl, ?_⟩
  unfold awaitsBody
  rw [bound, Option.getD_some, trim_start_inked reads.inked.first, head]
  simp only [python_uncallable known, Bool.false_and]

def snippetReceiver : Host → List Char
  | ruby => "config".toList
  | _ => "options".toList

def terminator : Host → List Char
  | javascript | python | php | go | rust => [',']
  | java | dotnet | dart => [';']
  | ruby | kotlin | cocoa | elixir => []

def statement (host : Host) (key : String) (literal : List Char) : List Char :=
  match host with
  | javascript | go | rust | elixir => key.toList ++ ':' :: ([] ++ [' ']) ++ literal
  | python => key.toList ++ '=' :: ([] ++ []) ++ literal
  | php => '\'' :: (key.toList ++ ['\'', ' ']) ++ '=' :: (['>'] ++ [' ']) ++ literal
  | java => "options".toList ++ '.' :: ("set".toList ++ (Naming.pascal key).toList ++ '(' :: (literal ++ [')']))
  | ruby => "config".toList ++ '.' :: (key.toList ++ [' ', '=', ' '] ++ literal)
  | _ => "options".toList ++ '.' :: (key.toList ++ [' ', '=', ' '] ++ literal)

theorem render_assignment_eq (host : Host) (key literal : String) :
    (host.renderAssignment key literal).toList = host.statement key literal.toList ++ host.terminator := by
  cases host <;>
  · unfold renderAssignment statement terminator
    simp only [String.toList_append, List.append_assoc, List.cons_append, List.nil_append, List.append_nil]
    rfl

theorem binds_statement (host : Host) {key : String} (known : key ∈ Catalog.standardEntries.map (·.key)) (v : PlainValue) :
    let native := host.grammar.nativeKey key
    let literal := (host.renderLiteral v.example').toList
    Statement.Binds host.grammar host.snippetReceiver native literal (host.statement native literal) := by
  intro native literal
  have spells := host.spells_native known
  have reads := host.reads_literal v
  have colon : ∀ {before : Option Char}, (∀ c ∈ before, isWordish c = true) →
      isLookalike [':'] before ([' '] ++ literal).head? = false := by
    intro before wordish
    have unmarked := unpreceded [':'] (by decide) wordish
    unfold isLookalike
    simp [unmarked]
  have last : ∀ c ∈ native.toList.getLast?, isWordish c = true := fun c ends =>
    List.all_eq_true.mp (wordish_of_plain_key spells.plain) c (List.mem_of_getLast? ends)
  cases host
  case python => exact (python_binds spells _).1
  case php => exact php_binds reads spells.plain _
  case java => exact java_binds reads known
  case javascript | go | rust | elixir =>
    exact binds_key_token reads spells rfl (passes_signs (by decide) (by decide) (by decide)) (by decide) (by decide)
      (by decide) (by decide) (colon last) (by decide) (by decide) _
  case ruby =>
    exact binds_receiver reads spells ⟨by decide, by decide⟩ rfl (passes_signs (by decide) (by decide) (by decide))
      (passes_signs (by decide) (by decide) (by decide))
  all_goals
    exact binds_receiver reads spells (spells_of_unworded rfl (by decide)) rfl
      (passes_signs (by decide) (by decide) (by decide)) (passes_signs (by decide) (by decide) (by decide))

end Host

end SnippetReview
