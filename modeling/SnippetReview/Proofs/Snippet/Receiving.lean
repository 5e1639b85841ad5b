import SnippetReview.Host.BlockGrammars
import SnippetReview.Proofs.Snippet.Binding
import SnippetReview.Proofs.Snippet.Marks

/- Assignments to a property of a receiver. The receiver and its dot are cut off before the assignment token
   is searched for, so that a key which opens blocks where it begins a line does so here too, and hides the
   token. -/

set_option autoImplicit false

namespace SnippetReview

open Text

def Grammar.opensBlock (g : Grammar) (word : List Char) : Bool :=
  match g.blockWords with
  | some words => words.openers.contains word || words.lineOpeners.contains word
  | none => false

theorem Grammar.opens_none_of_unreserved {g : Grammar} {word : List Char} (unreserved : word ∉ g.reserved) :
    g.opensBlock word = false := by
  unfold opensBlock
  unfold reserved at unreserved
  cases words : g.blockWords with
  | none => rfl
  | some words =>
    simp only [words, List.mem_cons, List.mem_append, not_or] at unreserved
    simp [unreserved]

theorem BlockWords.nesting_of_effect (words : BlockWords) (word later : List Char) :
    ({} : Nesting).afterWord (words.effect none word (' ' :: later) false) =
      { keywords := if words.openers.contains word || words.lineOpeners.contains word then 1 else 0 } := by
  have unnamed : words.effect none word (' ' :: later) false =
      if words.openers.contains word then .opens
      else if words.lineOpeners.contains word then .opens
      else if word == words.closer then .closes
      else .nothing := by
    simp [effect]
  rw [unnamed]
  cases words.openers.contains word with
  | true => rfl
  | false =>
    cases words.lineOpeners.contains word with
    | true => rfl
    | false =>
      -- The closing word closes nothing, since no block is open.
      cases word == words.closer <;> rfl

structure Grammar.Assigns (g : Grammar) : Prop where
  words : g.plainWords = true
  blank : g.clearAt [' '] = true
  flat : g.isFlat ' ' = true
  sign : g.clearAt ['=', ' '] = true

section

variable {g : Grammar} {c : Char} {rest : List Char}

theorem nesting_of_first_word (identifier : isIdentifier (c :: rest) = true) (later : List Char) :
    (Walk.step g { cursor := Cursor.start (c :: (rest ++ ' ' :: later)) }).nesting =
      { keywords := if g.opensBlock (c :: rest) then 1 else 0 } := by
  have wordish := wordish_of_identifier identifier
  rw [List.all_cons, Bool.and_eq_true] at wordish
  rw [isIdentifier, Bool.and_eq_true] at identifier
  have whole : (rest ++ ' ' :: later).takeWhile isIdentChar = rest :=
    word_at_whole wordish.2 (.inr fun d head => by rw [List.head?_cons, Option.mem_some_iff] at head; rw [← head]; decide)
  have behind : (rest ++ ' ' :: later).drop ((c :: rest).length - 1) = ' ' :: later := by
    rw [List.length_cons, Nat.add_sub_cancel, List.drop_left]
  unfold Walk.step Grammar.opensBlock
  -- Nothing stands before the word and a blank behind it, so that no sign makes it a name.
  cases worded : g.blockWords with
  | none =>
    have wordless : Walk.wordAt g none c (rest ++ ' ' :: later) = none := by simp [Walk.wordAt, worded]
    simp only [Cursor.start, wordless, nesting_after_wordish wordish.1]
    rfl
  | some words =>
    have word : Walk.wordAt g none c (rest ++ ' ' :: later) = some (c :: rest) := by
      simp [Walk.wordAt, worded, identifier.1, whole]
    simp only [Cursor.start, word, behind]
    exact words.nesting_of_effect (c :: rest) later

theorem moves_behind_first_word (assigns : g.Assigns) (identifier : isIdentifier (c :: rest) = true) (later : List Char) :
    Moves g (fun d => d != '=') (rest ++ [' ']) later ((rest ++ [' ']).map .code)
      (Walk.step g { cursor := Cursor.start (c :: (rest ++ ' ' :: later)) }) := by
  have wordish := List.all_eq_true.mp (wordish_of_identifier identifier)
  have cursor := Walk.cursor_step (g := g) (w := { cursor := Cursor.start (c :: (rest ++ ' ' :: later)) }) rfl
  refine moves_code ?bases [c] ?level _ ?stands ?angles ?before
  case bases =>
    intro d member
    rcases List.mem_append.mp member with inner | blank
    · rw [bne_iff_ne]
      rintro rfl
      exact absurd (wordish '=' (List.mem_cons_of_mem c inner)) (by decide)
    · rw [List.mem_singleton.mp blank]
      rfl
  case stands => rw [cursor, List.append_assoc, List.singleton_append]
  case angles => rw [nesting_of_first_word identifier]
  case before =>
    intro _
    rw [cursor, List.getLast?_singleton]
  case level =>
    intro passed d more split u stands angles before
    rcases List.eq_nil_or_concat more with rfl | ⟨inner, last, rfl⟩
    · obtain ⟨_, blank⟩ := List.append_inj' split rfl
      rw [← (List.cons.inj blank).1] at stands
      exact nesting_step_flat stands assigns.flat angles
    · -- A character of the word behind its first one begins no word.
      rw [List.concat_eq_append, ← List.cons_append, ← List.append_assoc] at split
      obtain ⟨word, _⟩ := List.append_inj' split rfl
      refine nesting_step_wordish stands (wordish d (by simp [word])) ?_
      intro found member
      rw [before (by simp)] at member
      cases shape : ([c] ++ passed).getLast? with
      | none => simp at shape
      | some previous =>
        have among : previous ∈ c :: rest := by
          rw [word, ← List.cons_append]
          exact List.mem_append_left _ (List.mem_of_getLast? shape)
        rw [shape, word_at_inner (wordish previous among)] at member
        contradiction

theorem tokens_of_assignment (assigns : g.Assigns) {key : List Char} (wordish : key.all isWordish = true) (value : List Char) :
    ∃ x, tokens g (key ++ ' ' :: '=' :: ' ' :: value) =
      (key ++ [' ']).map .code ++ .code '=' :: tokensFrom g x (' ' :: value) := by
  have follows : Follows false (' ' :: '=' :: ' ' :: value) :=
    .inr fun d head => by rw [List.head?_cons, Option.mem_some_iff] at head; rw [← head]; decide
  have word : ∀ x, tokensFrom g x (key ++ ' ' :: '=' :: ' ' :: value) = key.map .code ++
      tokensFrom g ((key.map Token.code).foldl Token.after x) (' ' :: '=' :: ' ' :: value) := by
    refine tokens_from_code_all fun d more done split => ?_
    rw [split, List.all_append, List.all_cons, Bool.and_eq_true, Bool.and_eq_true] at wordish
    exact literal_none_in_word assigns.words wordish.2.1 wordish.2.2 follows
  have blank (x : Context) : x.literal? g (' ' :: '=' :: ' ' :: value) = none := literal_of_clear_at assigns.blank _ x
  have sign (x : Context) : x.literal? g ('=' :: ' ' :: value) = none := literal_of_clear_at assigns.sign value x
  refine ⟨((key ++ [' ', '=']).map Token.code).foldl Token.after {}, ?_⟩
  rw [tokens, word, tokens_from_code (blank _), tokens_from_code (sign _), List.map_append, List.append_assoc,
    List.map_append, List.foldl_append]
  rfl

theorem search_behind_key (assigns : g.Assigns) {key : List Char} (identifier : isIdentifier key = true) (value : List Char) :
    ∃ (w : Walk) (x : Context), w.cursor = ⟨size (key ++ [' ']), some ' ', '=' :: ' ' :: value⟩ ∧
      w.nesting.depth = (if g.opensBlock key then 1 else 0) ∧
      findToken g (key ++ ' ' :: '=' :: ' ' :: value) ['='] =
        (w.visitAt g '=' (' ' :: value) :: (w.step g).seen g (tokensFrom g x (' ' :: value))).find?
          fun v => v.depth == 0 && tokenAt ['='] v := by
  obtain ⟨x, read⟩ := tokens_of_assignment assigns (wordish_of_identifier identifier) value
  obtain ⟨c, rest, rfl⟩ : ∃ c rest, key = c :: rest := by
    cases key with
    | nil => contradiction
    | cons c rest => exact ⟨c, rest, rfl⟩
  let start : Walk := { cursor := Cursor.start (c :: (rest ++ ' ' :: '=' :: ' ' :: value)) }
  have cursor := Walk.cursor_step (g := g) (w := start) rfl
  have moves := moves_behind_first_word assigns identifier ('=' :: ' ' :: value)
  let w : Walk := (start.step g).across g ((rest ++ [' ']).map .code)
  have here : w.cursor = ⟨size (c :: rest ++ [' ']), some ' ', '=' :: ' ' :: value⟩ := by
    have first : start.cursor.offset + c.utf8Size = c.utf8Size := Nat.zero_add _
    rw [moves.cursor, cursor, List.getLast?_concat, List.cons_append, size_cons, first]
    rfl
  refine ⟨w, x, here, ?_, ?_⟩
  · rw [moves.nesting, nesting_of_first_word identifier]
    exact Nat.zero_add _
  · -- Nothing in the key looks like the token, nor does the blank behind it.
    have skipped : (start.seen g ((c :: rest ++ [' ']).map .code)).find? (fun v => v.depth == 0 && tokenAt ['='] v) = none := by
      have others : '=' ≠ c := by
        rintro rfl
        contradiction
      rw [List.find?_eq_none, List.cons_append, List.map_cons, Walk.seen_code (w := start) rfl]
      refine List.forall_mem_cons.mpr ⟨?_, fun v member outside => ?_⟩
      · rw [token_at_other [] others, Bool.and_false]
        exact Bool.false_ne_true
      · rw [Bool.and_eq_true, beq_iff_eq] at outside
        rcases moves.seen v member with deeper | ⟨_, other⟩
        · exact Nat.not_lt_zero _ (outside.1 ▸ deeper)
        · rw [token_at_other [] (Ne.symm (bne_iff_ne.mp other))] at outside
          exact Bool.false_ne_true outside.2
    have behind : start.across g ((c :: rest ++ [' ']).map .code) = w := rfl
    change findOutside g _ (tokenAt ['=']) = _
    rw [find_outside_eq fun _ inner => token_at_inner [] (by decide) inner, read]
    change (start.seen g _).find? _ = _
    rw [Walk.seen_append, List.find?_append, skipped, behind, Walk.seen_code (by rw [here])]
    rfl

theorem find_token_behind_key (assigns : g.Assigns) {key : List Char} (identifier : isIdentifier key = true)
    (closed : g.opensBlock key = false) (value : List Char) :
    ∃ v, findToken g (key ++ ' ' :: '=' :: ' ' :: value) ['='] = some v ∧ v.offset = size (key ++ [' ']) ∧
      v.rest = ' ' :: value := by
  obtain ⟨w, x, cursor, depth, search⟩ := search_behind_key assigns identifier value
  rw [closed] at depth
  refine ⟨w.visitAt g '=' (' ' :: value), ?_, congrArg Cursor.offset cursor, rfl⟩
  rw [search, List.find?_cons_of_pos]
  unfold Walk.visitAt
  simp only [depth, cursor]
  rfl

theorem find_token_beyond_key (assigns : g.Assigns) {key : List Char} (identifier : isIdentifier key = true)
    (opens : g.opensBlock key = true) {value : List Char} {v : Visit}
    (found : findToken g (key ++ ' ' :: '=' :: ' ' :: value) ['='] = some v) :
    ∃ passed later, ' ' :: value = passed ++ later ∧ v.offset = size (key ++ [' ', '='] ++ passed) := by
  obtain ⟨w, x, cursor, depth, search⟩ := search_behind_key assigns identifier value
  rw [opens] at depth
  have inside : (w.visitAt g '=' (' ' :: value)).depth ≠ 0 := by
    unfold Walk.visitAt
    simp [depth]
  -- The sign behind the key is inside the block. What the search finds, it finds behind that sign.
  rw [search, List.find?_cons_of_neg (by simp [inside])] at found
  have next := Walk.cursor_step (g := g) (w := w) (by rw [cursor])
  have stands : (w.step g).cursor.rest = flatten (tokensFrom g x (' ' :: value)) ++ [] := by
    rw [next, flatten_tokens_from, List.append_nil]
  obtain ⟨done, more, split, offset, _⟩ :=
    Walk.seen_between stands (fun _ => filled_of_mem_tokens) (List.mem_of_find?_eq_some found)
  refine ⟨flatten done, flatten (.code v.char :: more), ?_, ?_⟩
  · rw [← flatten_tokens_from g x (' ' :: value), split]
    exact List.flatMap_append
  · rw [offset, next, cursor]
    simp only [size_append, size_cons, size_nil]
    omega

end

namespace Binding

variable {g : Grammar} {key value : List Char}

theorem not_operator_of_wordish {c : Char} (wordish : isWordish c = true) : isOperatorSign c = false := by
  unfold isOperatorSign
  simp only [Bool.or_eq_false_iff, beq_eq_false_iff_ne]
  refine ⟨⟨⟨⟨⟨?_, ?_⟩, ?_⟩, ?_⟩, ?_⟩, ?_⟩ <;>
  · rintro rfl
    exact absurd wordish (by decide)

theorem receiver_key (identifier : isIdentifier key = true) {blanks : List Char} (blank : ∀ c ∈ blanks, isBlank c = true) :
    trimEnd (dropEndWhile isOperatorSign (trimEnd (key ++ blanks))) = key := by
  have inked := inked_of_name (name_of_identifier identifier)
  -- The last character of a name is no sign of a compound assignment.
  have signless : dropEndWhile isOperatorSign key = key := by
    unfold dropEndWhile
    cases shape : key.reverse with
    | nil => rw [List.dropWhile_nil, List.reverse_nil, List.reverse_eq_nil_iff.mp shape]
    | cons c rest =>
      have wordish : isWordish c = true := by
        refine List.all_eq_true.mp (wordish_of_identifier identifier) c ?_
        rw [← List.mem_reverse, shape]
        exact List.mem_cons_self
      rw [List.dropWhile_cons_of_neg (by simp [not_operator_of_wordish wordish]), ← shape, List.reverse_reverse]
  rw [trim_end_blanks blank, trim_end_inked inked.last, signless, trim_end_inked inked.last]

theorem mem_drop_end {p : Char → Bool} {s : List Char} {c : Char} (member : c ∈ s) (kept : p c = false) :
    c ∈ dropEndWhile p s := by
  unfold dropEndWhile
  rw [List.mem_reverse]
  have whole := List.takeWhile_append_dropWhile (p := p) (l := s.reverse)
  rw [← List.mem_reverse, ← whole, List.mem_append] at member
  rcases member with dropped | member
  · rw [List.all_eq_true.mp List.all_takeWhile c dropped] at kept
    contradiction
  · exact member

theorem signless_of_dotted {s : List Char} {inName : Bool} (dotted : isDottedTail inName s = true) : '=' ∉ s := by
  induction s generalizing inName with
  | nil => exact List.not_mem_nil
  | cons c s ih =>
    have parts : ∃ kept : Bool, isDottedTail kept s = true ∧ '=' ≠ c := by
      rw [isDottedTail] at dotted
      by_cases dot : c = '.'
      · rw [dot] at dotted ⊢
        cases inName with
        | false => contradiction
        | true => exact ⟨false, dotted, by decide⟩
      · rw [if_neg (by simpa using dot)] at dotted
        cases inName with
        | false =>
          rw [if_neg Bool.false_ne_true, Bool.and_eq_true] at dotted
          refine ⟨true, dotted.2, ?_⟩
          rintro rfl
          exact absurd dotted.1 (by decide)
        | true =>
          rw [if_pos rfl, Bool.and_eq_true] at dotted
          refine ⟨true, dotted.2, ?_⟩
          rintro rfl
          exact absurd dotted.1 (by decide)
    obtain ⟨kept, tail, other⟩ := parts
    exact List.not_mem_cons_of_ne_of_not_mem other (ih tail)

theorem of_receiver_eq {receiver : List Char} {item : Slice} {rest : List Char}
    (after : afterReceiver? receiver item.text = some rest) :
    ofReceiver? g receiver item = (findToken g rest ['=']).bind fun v =>
      let key := trimEnd (dropEndWhile isOperatorSign (trimEnd (takeBytes v.offset rest)))
      if isKey key then
        some ⟨String.ofList key, valueFrom item (size item.text - size rest + v.offset + 1) v.rest, false⟩
      else none := by
  rw [ofReceiver?, after]
  rfl

theorem after_receiver_place (receiver key value : List Char) (start : Nat) (later : List Char) :
    afterReceiver? receiver (Slice.place start (receiver ++ '.' :: (key ++ [' ', '=', ' '] ++ value)) later).text =
      some (key ++ ' ' :: '=' :: ' ' :: value) := by
  have bound : key ++ [' ', '=', ' '] ++ value = key ++ ' ' :: '=' :: ' ' :: value := by simp
  rw [Slice.text_place, bound]
  exact after_receiver_append receiver _

theorem of_receiver_place (assigns : g.Assigns) (identifier : isIdentifier key = true) (closed : g.opensBlock key = false)
    (inked : Inked value) (receiver : List Char) (start : Nat) (later : List Char) :
    ∃ b, ofReceiver? g receiver (Slice.place start (receiver ++ '.' :: (key ++ [' ', '=', ' '] ++ value)) later) = some b ∧
      b.Sets (String.ofList key) (start + size (receiver ++ '.' :: (key ++ [' ', '=', ' ']))) value := by
  obtain ⟨v, found, offset, rest⟩ := find_token_behind_key assigns identifier closed value
  have read : trimEnd (dropEndWhile isOperatorSign (trimEnd (takeBytes v.offset (key ++ ' ' :: '=' :: ' ' :: value)))) = key := by
    rw [offset, List.append_cons key ' ' ('=' :: ' ' :: value), take_bytes_append]
    exact receiver_key identifier (List.all_eq_true.mp (by decide))
  rw [of_receiver_eq (after_receiver_place receiver key value start later), found, Option.bind_some]
  simp only [read, is_key_of_name (name_of_identifier identifier), if_true]
  refine ⟨_, rfl, ?_⟩
  have whole : receiver ++ '.' :: (key ++ [' ', '=', ' '] ++ value) =
      (receiver ++ '.' :: (key ++ [' ', '='])) ++ ([' '] ++ value) := by simp
  have stop : size (Slice.place start (receiver ++ '.' :: (key ++ [' ', '=', ' '] ++ value)) later).text -
      size (key ++ ' ' :: '=' :: ' ' :: value) + v.offset + 1 = size (receiver ++ '.' :: (key ++ [' ', '='])) := by
    rw [Slice.text_place, offset]
    simp only [size_append, size_cons, size_nil]
    have one : '='.utf8Size = 1 := by decide
    omega
  have behind : start + size (receiver ++ '.' :: (key ++ [' ', '='])) + size [' '] =
      start + size (receiver ++ '.' :: (key ++ [' ', '=', ' '])) := by
    simp only [size_append, size_cons, size_nil]
    omega
  have placed : valueFrom (Slice.place start ((receiver ++ '.' :: (key ++ [' ', '='])) ++ ([' '] ++ value)) later)
      (size (receiver ++ '.' :: (key ++ [' ', '=']))) ([' '] ++ value) = _ :=
    value_from_place (List.all_eq_true.mp (by decide)) inked
  rw [stop, rest, whole]
  rw [behind] at placed
  exact placed ▸ sets_place

theorem of_receiver_none (assigns : g.Assigns) (identifier : isIdentifier key = true) (opens : g.opensBlock key = true)
    (value receiver : List Char) (start : Nat) (later : List Char) :
    ofReceiver? g receiver (Slice.place start (receiver ++ '.' :: (key ++ [' ', '=', ' '] ++ value)) later) = none := by
  rw [of_receiver_eq (after_receiver_place receiver key value start later)]
  cases found : findToken g (key ++ ' ' :: '=' :: ' ' :: value) ['='] with
  | none => rfl
  | some v =>
    obtain ⟨passed, more, split, offset⟩ := find_token_beyond_key assigns identifier opens found
    have taken : takeBytes v.offset (key ++ ' ' :: '=' :: ' ' :: value) = key ++ [' ', '='] ++ passed := by
      have whole : key ++ ' ' :: '=' :: ' ' :: value = key ++ [' ', '='] ++ passed ++ more := by simp [split]
      rw [offset, whole, take_bytes_append]
    -- The hidden sign stands before the one found, and nothing that is cut off at the end of a key takes it away.
    have sign : '=' ∈ trimEnd (dropEndWhile isOperatorSign (trimEnd (key ++ [' ', '='] ++ passed))) :=
      mem_drop_end (mem_drop_end (mem_drop_end (by simp) (by decide)) (by decide)) (by decide)
    have other : isKey (trimEnd (dropEndWhile isOperatorSign (trimEnd (key ++ [' ', '='] ++ passed)))) = false :=
      Bool.eq_false_iff.mpr fun dotted => signless_of_dotted dotted sign
    rw [Option.bind_some, taken]
    simp only [other, Bool.false_eq_true, if_false]

end Binding

theorem Host.assigns (host : Host) : host.grammar.Assigns := by
  constructor <;> cases host <;> decide

/-- An assignment of a value without outer blanks, such as a string literal, to a property of the receiver is read as it
stands, unless the property is spelled like a word that opens a block. Then nothing is read. -/
theorem receiver_sets_iff (host : Host) {key value : List Char} (identifier : isIdentifier key = true) (inked : Inked value)
    (receiver : List Char) (start : Nat) (later : List Char) :
    let item := Slice.place start (receiver ++ '.' :: (key ++ [' ', '=', ' '] ++ value)) later
    let read := Binding.ofReceiver? host.grammar receiver item
    (host.grammar.opensBlock key = false → ∃ b, read = some b ∧
      b.Sets (String.ofList key) (start + size (receiver ++ '.' :: (key ++ [' ', '=', ' ']))) value) ∧
    (host.grammar.opensBlock key = true → read = none) :=
  ⟨fun closed => Binding.of_receiver_place host.assigns identifier closed inked receiver start later,
    fun opens => Binding.of_receiver_none host.assigns identifier opens value receiver start later⟩

theorem receiver_sets_iff_dsn :
    isIdentifier "dsn".toList = true ∧ Inked "'x'".toList ∧
      ∃ b, Binding.ofReceiver? Grammar.ruby "config".toList
          (Slice.place 0 ("config".toList ++ '.' :: ("dsn".toList ++ [' ', '=', ' '] ++ "'x'".toList)) []) = some b ∧
        b.key = "dsn" ∧ b.value.text = "'x'".toList := by
  have identifier : isIdentifier "dsn".toList = true := by decide
  have inked : Inked "'x'".toList := ⟨by decide, by decide, by decide⟩
  obtain ⟨b, read, sets⟩ := (receiver_sets_iff .ruby identifier inked "config".toList 0 []).1 (by decide)
  exact ⟨identifier, inked, b, read, sets.key, sets.text⟩

-- The class of a configuration cannot be set in Ruby.
theorem receiver_sets_iff_class :
    BindingStyle.receiver ∈ Grammar.ruby.bindings ∧ isIdentifier "class".toList = true ∧
      (segments Grammar.ruby "'x'".toList).map (fun s => (s.kind, s.text)) = [(.quoted, "'x'".toList)] ∧
      (Binding.ofReceiver? Grammar.ruby "config".toList (Slice.place 0 "config.class = 'x'".toList [])).isNone = true := by
  decide +kernel

end SnippetReview
