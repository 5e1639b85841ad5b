import SnippetReview.Proofs.Snippet.Finding
import SnippetReview.Proofs.Text.Trimming
import SnippetReview.Proofs.Text.Utf8

set_option autoImplicit false

namespace SnippetReview

open Text

def isPlainKey : List Char → Bool
  | [] => false
  | c :: rest => c.isAlpha && rest.all isWordish

def isIdentifier : List Char → Bool
  | [] => false
  | c :: rest => (c.isAlpha || c == '_') && rest.all isWordish

theorem identifier_of_plain_key {key : List Char} (plain : isPlainKey key = true) : isIdentifier key = true := by
  cases key with
  | nil => contradiction
  | cons c rest =>
    rw [isPlainKey, Bool.and_eq_true] at plain
    rw [isIdentifier, plain.1, plain.2]
    rfl

theorem wordish_of_identifier {key : List Char} (identifier : isIdentifier key = true) : key.all isWordish = true := by
  cases key with
  | nil => rfl
  | cons c rest =>
    rw [isIdentifier, Bool.and_eq_true, Bool.or_eq_true] at identifier
    have first : isWordish c = true := by
      unfold isWordish Char.isAlphanum
      rcases identifier.1 with letter | underscore
      · rw [letter, Bool.true_or, Bool.true_or]
      · rw [underscore, Bool.or_true]
    rw [List.all_cons, first, identifier.2]
    rfl

theorem wordish_of_plain_key {key : List Char} (plain : isPlainKey key = true) : key.all isWordish = true :=
  wordish_of_identifier (identifier_of_plain_key plain)

theorem ascii_of_wordish {c : Char} (wordish : isWordish c = true) : c.toNat < 128 := by
  rw [isWordish, Bool.or_eq_true, beq_iff_eq] at wordish
  rcases wordish with alphanum | rfl
  · exact ascii_of_alphanum alphanum
  · decide

theorem name_char_of_wordish {c : Char} (wordish : isWordish c = true) : Pattern.isNameChar c = true := by
  have word : isWordChar c = true := by
    unfold isWordChar
    rw [if_pos (ascii_of_wordish wordish)]
    exact wordish
  rw [Pattern.isNameChar, word, Bool.true_or]

theorem name_char_of_start {c : Char} (start : Pattern.isNameStart c = true) : Pattern.isNameChar c = true := by
  unfold Pattern.isNameStart at start
  simp only [Bool.or_eq_true, beq_iff_eq] at start
  rcases start with (letter | rfl) | rfl
  · apply name_char_of_wordish
    simp [isWordish, Char.isAlphanum, letter]
  · decide
  · decide

theorem not_blank_of_name_char {c : Char} (named : Pattern.isNameChar c = true) : isBlank c = false := by
  cases blank : isBlank c with
  | false => rfl
  | true =>
    have nameless := not_of_blank (p := Pattern.isNameChar) (by decide +kernel) blank
    rw [named] at nameless
    contradiction

section

variable {key : List Char}

theorem all_of_name (name : isName key = true) : ∀ c ∈ key, Pattern.isNameChar c = true := by
  cases key with
  | nil => contradiction
  | cons c rest =>
    rw [isName, Bool.and_eq_true, List.all_eq_true] at name
    exact List.forall_mem_cons.mpr ⟨name_char_of_start name.1, name.2⟩

theorem inked_of_name (name : isName key = true) : Inked key := by
  have named := all_of_name name
  refine ⟨by rintro rfl; contradiction, fun c first => ?_, fun c last => ?_⟩
  · exact not_blank_of_name_char (named c (List.mem_of_mem_head? first))
  · exact not_blank_of_name_char (named c (List.mem_of_getLast? last))

theorem is_key_of_name (name : isName key = true) : isKey key = true := by
  cases key with
  | nil => contradiction
  | cons c rest =>
    have dotless : ∀ {d : Char}, Pattern.isNameChar d = true → (d == '.') = false := by
      intro d named
      rw [beq_eq_false_iff_ne]
      rintro rfl
      exact absurd named (by decide)
    have tail : ∀ s : List Char, (∀ d ∈ s, Pattern.isNameChar d = true) → isDottedTail true s = true := by
      intro s
      induction s with
      | nil => exact fun _ => rfl
      | cons d s ih =>
        intro all
        have named := all d List.mem_cons_self
        rw [isDottedTail, dotless named]
        simp [named, ih fun e member => all e (List.mem_cons_of_mem d member)]
    rw [isName, Bool.and_eq_true, List.all_eq_true] at name
    rw [isKey, isDottedTail, dotless (name_char_of_start name.1)]
    simp [name.1, tail rest name.2]

theorem name_of_identifier (identifier : isIdentifier key = true) : isName key = true := by
  cases key with
  | nil => contradiction
  | cons c rest =>
    rw [isIdentifier, Bool.and_eq_true, List.all_eq_true] at identifier
    rw [isName, Pattern.isNameStart, identifier.1, Bool.true_or, Bool.true_and, List.all_eq_true]
    exact fun d member => name_char_of_wordish (identifier.2 d member)

theorem inked_of_plain_key (plain : isPlainKey key = true) : Inked key :=
  inked_of_name (name_of_identifier (identifier_of_plain_key plain))

theorem is_key_plain (plain : isPlainKey key = true) : isKey key = true :=
  is_key_of_name (name_of_identifier (identifier_of_plain_key plain))

end

theorem clean_key_plain {key : List Char} (plain : isPlainKey key = true) : cleanKey? key = some (String.ofList key) := by
  have whole := is_key_plain plain
  unfold cleanKey?
  simp only [trim_inked (inked_of_plain_key plain)]
  cases key with
  | nil => contradiction
  | cons c rest =>
    cases rest with
    | nil => simp [whole]
    | cons d rest =>
      rw [isPlainKey, Bool.and_eq_true] at plain
      have sign : (c == '"' || c == '\'' || c == '`') = false := by
        simp only [Bool.or_eq_false_iff, beq_eq_false_iff_ne]
        refine ⟨⟨?_, ?_⟩, ?_⟩ <;>
        · rintro rfl
          exact absurd plain.1 (by decide)
      simp [sign, whole]

theorem clean_key_quoted {key : List Char} (plain : isPlainKey key = true) :
    cleanKey? ('\'' :: (key ++ ['\'', ' '])) = some (String.ofList key) := by
  have inked : Inked ('\'' :: (key ++ ['\''])) := by
    refine ⟨List.cons_ne_nil _ _, ?_, ?_⟩
    · intro c head
      rw [List.head?_cons, Option.mem_some_iff] at head
      rw [← head]
      decide
    · intro c last
      rw [← List.cons_append, List.getLast?_concat, Option.mem_some_iff] at last
      rw [← last]
      decide
  have trimmed : trim ('\'' :: (key ++ ['\'', ' '])) = '\'' :: (key ++ ['\'']) := by
    have split : '\'' :: (key ++ ['\'', ' ']) = '\'' :: (key ++ ['\'']) ++ [' '] := by simp
    have first : trimStart ('\'' :: (key ++ ['\'']) ++ [' ']) = '\'' :: (key ++ ['\'']) ++ [' '] :=
      trim_start_inked (by intro c head; rw [List.cons_append, List.head?_cons, Option.mem_some_iff] at head; rw [← head]; decide)
    rw [split, trim, first, trim_end_blanks (List.all_eq_true.mp (by decide)), trim_end_inked inked.last]
  obtain ⟨b, rest, parts⟩ := List.exists_cons_of_ne_nil (l := key ++ ['\'']) (by simp)
  have last : ('\'' :: (key ++ ['\''])).getLast? = some '\'' := by rw [← List.cons_append, List.getLast?_concat]
  have quotedKey : isQuotedKey key = true := by
    have wordish := List.all_eq_true.mp (wordish_of_plain_key plain)
    unfold isQuotedKey
    rw [Bool.and_eq_true, List.all_eq_true]
    refine ⟨by simp [(inked_of_plain_key plain).nonempty], fun c member => ?_⟩
    rw [name_char_of_wordish (wordish c member), Bool.true_or, Bool.true_or]
  unfold cleanKey?
  simp only [trimmed]
  rw [parts] at last ⊢
  simp only [last]
  rw [← parts]
  simp [quotedKey]

structure Binding.Sets (b : Binding) (key : String) (start : Nat) (value : List Char) : Prop where
  key : b.key = key
  start : b.value.start = start
  size : b.value.size = size value
  text : b.value.text = value
  isMethod : b.isMethod = false

namespace Binding

variable {g : Grammar} {base : Char → Bool} {free : Bool}

theorem value_from_place {start : Nat} {done gap value later : List Char} (blank : ∀ c ∈ gap, isBlank c = true)
    (inked : Inked value) : valueFrom (Slice.place start (done ++ (gap ++ value)) later) (size done) (gap ++ value) =
      Slice.place (start + size done + size gap) value [] := by
  have whole : (Slice.place (start + size done) (gap ++ value ++ []) []).trim =
      Slice.place (start + size done + size gap) value ([] ++ []) := Slice.trim_place blank (by simp) inked _ _
  rw [List.append_nil, List.append_nil] at whole
  rw [valueFrom, Slice.size_place, Slice.start_place, size_append, Nat.add_sub_cancel_left, ← whole]
  unfold Slice.place
  rw [List.append_nil]

theorem sets_place {key : String} {start : Nat} {value later : List Char} :
    Binding.Sets ⟨key, Slice.place start value later, false⟩ key start value :=
  ⟨rfl, rfl, rfl, Slice.text_place start value later, rfl⟩

theorem of_token_eq {item : Slice} {token : List Char} {v : Visit} {key : String}
    (found : findToken g item.text token = some v) (clean : cleanKey? (takeBytes v.offset item.text) = some key) :
    ofToken? g item token =
      some ⟨key, valueFrom item (v.offset + token.length) (v.rest.drop (token.length - 1)), false⟩ := by
  simp [ofToken?, found, clean]

theorem of_token_place {written : List Char} (passes : Passes g base free written) {c : Char} {more gap value : List Char}
    (joins : free = true ∨ isBreak c = true) (clear : g.clearAt (c :: (more ++ gap)) = true)
    (signed : isIdentChar c = false) (absent : base c = false) (ascii : size (c :: more) = (c :: more).length)
    (plain : isLookalike (c :: more) written.getLast? (gap ++ value).head? = false) {key : String}
    (clean : cleanKey? written = some key) (blank : ∀ c ∈ gap, isBlank c = true) (inked : Inked value) (start : Nat)
    (later : List Char) :
    ∃ b, ofToken? g (Slice.place start (written ++ c :: more ++ (gap ++ value)) later) (c :: more) = some b ∧
      b.Sets key (start + size (written ++ c :: more ++ gap)) value := by
  obtain ⟨v, found, offset, rest⟩ := find_token_passage passes joins clear signed absent plain
  have text : written ++ c :: more ++ (gap ++ value) = written ++ c :: (more ++ gap ++ value) := by simp
  have tail : v.rest.drop ((c :: more).length - 1) = gap ++ value := by
    rw [rest, List.length_cons, Nat.add_sub_cancel, List.append_assoc, List.drop_left]
  have stop : v.offset + (c :: more).length = size (written ++ c :: more) := by rw [offset, size_append, ascii]
  have before : cleanKey? (takeBytes v.offset (Slice.place start (written ++ c :: more ++ (gap ++ value)) later).text) =
      some key := by
    rw [Slice.text_place, offset, text, take_bytes_append, clean]
  refine ⟨_, of_token_eq (by rwa [Slice.text_place, text]) before, ?_⟩
  rw [tail, stop, value_from_place blank inked, size_append (written ++ c :: more), ← Nat.add_assoc]
  exact sets_place

theorem after_receiver_append (receiver rest : List Char) :
    afterReceiver? receiver (receiver ++ '.' :: rest) = some rest := by
  unfold afterReceiver?
  rw [if_pos (List.isPrefixOf_iff_prefix.mpr (List.prefix_append receiver _)), List.drop_left]
  rfl

theorem of_setter_eq {receiver : List Char} {item : Slice} {rest property inner : List Char} {v : Visit}
    (after : afterReceiver? receiver item.text = some rest)
    (name : setterProperty? (rest.takeWhile isIdentChar) = some property)
    (arguments : trimStart (rest.dropWhile isIdentChar) = '(' :: inner) (found : matchingClose g inner ')' = some v)
    (ends : trim v.rest = []) :
    ofSetter? g receiver item = some ⟨propertyKey g.naming property,
      Slice.trim ⟨item.start + (size item.text - size ('(' :: inner)) + 1, v.offset, inner⟩, false⟩ := by
  simp [ofSetter?, after, name, arguments, found, ends]

theorem of_setter_place {property value : List Char} (passes : Passes g base free value)
    (inside : ∀ c, base c = true → isClosing c = false) (clear : g.clearAt [')'] = true)
    (wordish : property.all isWordish = true) (capital : ∀ c ∈ property.head?, c.isUpper = true)
    (nonempty : property ≠ []) (inked : Inked value) (receiver : List Char) (start : Nat) (later : List Char) :
    ∃ b, ofSetter? g receiver
        (Slice.place start (receiver ++ '.' :: ("set".toList ++ property ++ '(' :: (value ++ [')']))) later) = some b ∧
      b.Sets (propertyKey g.naming property) (start + size (receiver ++ '.' :: ("set".toList ++ property ++ ['(']))) value := by
  have verb : ∀ c ∈ "set".toList, isIdentChar c = true := List.all_eq_true.mp (by decide)
  have method : ∀ c ∈ "set".toList ++ property, isIdentChar c = true := by
    intro c member
    rcases List.mem_append.mp member with first | name
    · exact verb c first
    · exact ident_of_wordish (List.all_eq_true.mp wordish c name)
  have name : (("set".toList ++ property) ++ '(' :: (value ++ [')'])).takeWhile isIdentChar = "set".toList ++ property := by
    rw [List.takeWhile_append_of_pos method, List.takeWhile_cons_of_neg (by decide), List.append_nil]
  have arguments : trimStart ((("set".toList ++ property) ++ '(' :: (value ++ [')'])).dropWhile isIdentChar) =
      '(' :: (value ++ [')']) := by
    rw [List.dropWhile_append_of_pos method, List.dropWhile_cons_of_neg (by decide)]
    exact trim_start_inked (by intro c head; rw [List.head?_cons, Option.mem_some_iff] at head; rw [← head]; decide)
  have known : setterProperty? ("set".toList ++ property) = some property := by
    obtain ⟨c, rest, rfl⟩ := List.exists_cons_of_ne_nil nonempty
    have upper := capital c rfl
    unfold setterProperty?
    simp [upper]
  obtain ⟨v, found, offset, rest⟩ : ∃ v, matchingClose g (value ++ [')']) ')' = some v ∧ v.offset = size value ∧ v.rest = [] :=
    matching_close_passage passes (by decide) (by decide) clear inside
  have after : afterReceiver? receiver
      (Slice.place start (receiver ++ '.' :: ("set".toList ++ property ++ '(' :: (value ++ [')']))) later).text =
      some ("set".toList ++ property ++ '(' :: (value ++ [')'])) := by
    rw [Slice.text_place]
    exact after_receiver_append receiver _
  refine ⟨_, of_setter_eq after (by rw [name, known]) arguments found (by rw [rest]; rfl), ?_⟩
  have opened : size (Slice.place start (receiver ++ '.' :: ("set".toList ++ property ++ '(' :: (value ++ [')']))) later).text -
      size ('(' :: (value ++ [')'])) + 1 = size (receiver ++ '.' :: ("set".toList ++ property ++ ['('])) := by
    rw [Slice.text_place]
    simp only [size_append, size_cons, size_nil]
    have one : '('.utf8Size = 1 := by decide
    omega
  have trimmed : (Slice.place (start + size (receiver ++ '.' :: ("set".toList ++ property ++ ['('])))
      ([] ++ value ++ []) [')']).trim = _ := Slice.trim_place (by simp) (by simp) inked _ _
  simp only [List.nil_append, List.append_nil, size_nil, Nat.add_zero] at trimmed
  unfold Slice.place at trimmed
  rw [Slice.start_place, Nat.add_assoc, opened, offset, trimmed]
  exact sets_place

end Binding

end SnippetReview
