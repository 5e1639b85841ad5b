import SnippetReview.Proofs.Bytewise.Splitting

set_option autoImplicit false

namespace SnippetReview

open Text

namespace Bytewise

structure Assignment where
  key : String
  value : Item
  isMethod : Bool := false
deriving DecidableEq, Repr

def isQuoteMark (c : Char) : Bool := c == '"' || c == '\'' || c == '`'

def isQuotedBytes (bs : List UInt8) : Checked Bool :=
  if 2 ≤ bs.length then do
    let first ← byteAt bs 0
    if isQuoteMark (charOf first) then do
      let last ← byteAt bs (← minus bs.length 1)
      return last == first
    else return false
  else return false

def cleanKey (written : List Char) : Checked (Option String) := do
  let key := trim written
  if ← isQuotedBytes (bytes key) then do
    let inner ← slice key 1 (← minus (size key) 1)
    return if isQuotedKey inner then some (String.ofList inner) else none
  else return if isKey key then some (String.ofList key) else none

def stripReceiver (receiver text : List Char) : Option Nat :=
  if receiver.isPrefixOf text && (text.drop receiver.length).head? == some '.' then some (size receiver + 1) else none

def valueFrom (item : Item) (text : List Char) (offset : Nat) : Checked Item := do
  let range ← trimmed text offset (size text)
  return range.shift item.start

def ofToken (g : Grammar) (item : Item) (text token : List Char) : Checked (Option Assignment) := do
  match ← findToken g text token with
  | none => return none
  | some pos => do
    match ← cleanKey (← slice text 0 pos) with
    | none => return none
    | some key => do
      let value ← valueFrom item text (pos + size token)
      return some ⟨key, value, false⟩

def ofReceiver (g : Grammar) (receiver : List Char) (item : Item) (text : List Char) : Checked (Option Assignment) := do
  match stripReceiver receiver text with
  | none => return none
  | some offset => do
    let rest ← sliceFrom text offset
    match ← findToken g rest ['='] with
    | none => return none
    | some pos => do
      let written ← slice rest 0 pos
      let key := trimEnd (dropEndWhile Binding.isOperatorSign (trimEnd written))
      if isKey key then do
        let value ← valueFrom item text (offset + pos + 1)
        return some ⟨String.ofList key, value, false⟩
      else return none

def closer (b : UInt8) : Option (Char × Bool) :=
  if charOf b == '(' then some (')', false) else if charOf b == '\x7b' then some ('\x7d', true) else none

def closedAt (g : Grammar) (text : List Char) (opened stop : Nat) (closing : Char) : Checked (Option Nat) := do
  match ← matchingClose g (← slice text (opened + 1) stop) closing with
  | none => return none
  | some inside => do
    let close := opened + 1 + inside
    let behind ← slice text (close + 1) stop
    return if (trim behind).isEmpty then some close else none

def argumentAt (g : Grammar) (item : Item) (text : List Char) (opened : Nat) : Checked (Option Item) := do
  match (bytes text)[opened]?.bind closer with
  | none => return none
  | some (closing, included) => do
    match ← closedAt g text opened (size text) closing with
    | none => return none
    | some close => do
      let value ← if included then pure ⟨opened, close + 1⟩ else trimmed text (opened + 1) close
      return some (value.shift item.start)

def ofSetter (g : Grammar) (receiver : List Char) (item : Item) (text : List Char) : Checked (Option Assignment) := do
  match stripReceiver receiver text with
  | none => return none
  | some offset => do
    let rest ← sliceFrom text offset
    let length := ((bytes rest).takeWhile fun b => isIdentChar (charOf b)).length
    match Binding.setterProperty? (← slice rest 0 length) with
    | none => return none
    | some property => do
      let after ← sliceFrom rest length
      let blanks ← minus (size after) (size (trimStart after))
      match ← argumentAt g item text (offset + length + blanks) with
      | none => return none
      | some value => return some ⟨Binding.propertyKey g.naming property, value, false⟩

def ofMethod (item : Item) (text : List Char) : Option Assignment := do
  let found ← Binding.methodHead.find? text
  let name ← found.group
  if name == "function".toList || text.getLast? != some '\x7d' then none
  else some ⟨String.ofList name, item, true⟩

def ofStyle (g : Grammar) (source receiver : List Char) (item : Item) (style : BindingStyle) :
    Checked (Option Assignment) := do
  let text ← item.text source
  match style with
  | .token token => ofToken g item text token
  | .receiver => ofReceiver g receiver item text
  | .setter => ofSetter g receiver item text
  | .method => return ofMethod item text

def ofItem (g : Grammar) (source receiver : List Char) (item : Item) : Checked (Option Assignment) :=
  g.bindings.findSomeM? (ofStyle g source receiver item)

end Bytewise

def Binding.assignment (b : Binding) : Bytewise.Assignment := ⟨b.key, b.value.item, b.isMethod⟩

namespace Bytewise

theorem char_of_inj {a b : UInt8} (same : charOf a = charOf b) : a = b := by
  have number := congrArg Char.toNat same
  rw [to_nat_char_of, to_nat_char_of] at number
  exact UInt8.toNat_inj.mp number

theorem last_is_first {c : Char} (ascii : c.toNat < 128) (d : Char) : (lastByte d == firstByte c) = (d == c) := by
  have char : charOf (firstByte c) = c := by
    rw [firstByte, encode_ascii ascii]
    exact char_of_ascii ascii
  rw [← last_is ascii d, Bool.eq_iff_iff, beq_iff_eq, beq_iff_eq]
  exact ⟨fun same => by rw [same, char], fun same => char_of_inj (by rw [same, char])⟩

theorem ascii_of_quote_mark {c : Char} (mark : isQuoteMark c = true) : c.toNat < 128 := by
  rw [isQuoteMark, Bool.or_eq_true, Bool.or_eq_true, beq_iff_eq, beq_iff_eq, beq_iff_eq] at mark
  rcases mark with (rfl | rfl) | rfl <;> decide

theorem quote_mark_test : IsByteTest isQuoteMark := byte_test_of_ascii fun _ => ascii_of_quote_mark

def isQuotedText (key : List Char) : Bool :=
  match key with
  | c :: _ :: _ => isQuoteMark c && key.getLast? == some c
  | _ => false

theorem is_quoted_text_concat (c : Char) (front : List Char) (d : Char) :
    isQuotedText (c :: (front ++ [d])) = (isQuoteMark c && d == c) := by
  have ends : (c :: (front ++ [d])).getLast? = some d := by rw [← List.cons_append, List.getLast?_concat]
  rw [← Option.some_beq_some (a := d), ← ends]
  cases front <;> rfl

theorem is_quoted_bytes_spec (key : List Char) : isQuotedBytes (bytes key) = .ok (isQuotedText key) := by
  unfold isQuotedBytes
  cases key with
  | nil => rfl
  | cons c rest =>
    have first : byteAt (bytes (c :: rest)) 0 = .ok (firstByte c) := byte_at_first (p := []) rfl
    rw [first, ok_bind, test_first quote_mark_test]
    rcases List.eq_nil_or_concat rest with rfl | ⟨front, d, rfl⟩
    · by_cases mark : isQuoteMark c = true
      · rw [if_neg (by rw [length_bytes, size_singleton, utf8_size_ascii (ascii_of_quote_mark mark)]; decide)]
        rfl
      · rw [if_neg mark]
        exact ite_self _
    · have positive := Char.utf8Size_pos c
      have positive' := Char.utf8Size_pos d
      have length : (bytes (c :: (front ++ [d]))).length = size (c :: front) + d.utf8Size := by
        rw [length_bytes, ← List.cons_append, size_append, size_singleton]
      have last := byte_at_last (c :: front) d []
      rw [List.cons_append] at last
      rw [List.concat_eq_append, is_quoted_text_concat, length, if_pos (by rw [size_cons]; omega)]
      by_cases mark : isQuoteMark c = true
      · rw [if_pos mark, mark, minus_of_le (by omega), ok_bind, last, ok_bind, last_is_first (ascii_of_quote_mark mark),
          Bool.true_and]
        rfl
      · rw [if_neg mark, Bool.eq_false_iff.mpr mark, Bool.false_and]
        rfl

theorem clean_key_spec (written : List Char) : cleanKey written = .ok (cleanKey? written) := by
  change _ = Except.ok (if isQuotedText (trim written) then
      if isQuotedKey ((trim written).drop 1).dropLast then some (String.ofList ((trim written).drop 1).dropLast) else none
    else if isKey (trim written) then some (String.ofList (trim written)) else none)
  unfold cleanKey
  generalize trim written = key
  dsimp only
  rw [is_quoted_bytes_spec, ok_bind]
  by_cases quoted : isQuotedText key = true
  · rw [if_pos quoted, if_pos quoted]
    -- Both quotes take a byte, so that the text between them has its bounds between characters.
    obtain ⟨c, inner, parts, one⟩ : ∃ c inner, key = c :: (inner ++ [c]) ∧ c.utf8Size = 1 := by
      match key with
      | [] => contradiction
      | [c] => contradiction
      | c :: d :: rest =>
        obtain ⟨inner, last, parts⟩ := List.eq_nil_or_concat (d :: rest) |>.resolve_left (List.cons_ne_nil d rest)
        rw [parts, List.concat_eq_append, is_quoted_text_concat, Bool.and_eq_true, beq_iff_eq] at quoted
        refine ⟨c, inner, ?_, utf8_size_ascii (ascii_of_quote_mark quoted.1)⟩
        rw [parts, List.concat_eq_append, quoted.2]
    have room : minus (size key) 1 = .ok (1 + size inner) := by
      rw [parts, size_cons, size_append, size_singleton, one, minus_of_le (Nat.le_add_right _ _)]
      rfl
    have part : slice key 1 (1 + size inner) = .ok inner :=
      slice_of_parts (p := [c]) parts (by rw [size_singleton, one]) (by rw [size_singleton, one])
    have middle : (key.drop 1).dropLast = inner := by
      rw [parts, List.drop_succ_cons, List.drop_zero, List.dropLast_concat]
    rw [room, ok_bind, part, ok_bind, middle]
    rfl
  · rw [if_neg quoted, if_neg quoted]
    rfl

section

variable {g : Grammar} {source text receiver : List Char} {item : Slice}

theorem strip_receiver_spec (receiver text : List Char) :
    stripReceiver receiver text = (Binding.afterReceiver? receiver text).map fun _ => size receiver + 1 := by
  unfold stripReceiver Binding.afterReceiver?
  by_cases here : receiver.isPrefixOf text = true
  · rw [here, Bool.true_and, if_pos rfl]
    by_cases dot : ((text.drop receiver.length).head? == some '.') = true
    · obtain ⟨rest, shape⟩ := head_is_iff.mp dot
      rw [if_pos dot, shape]
      rfl
    · rw [if_neg dot]
      split
      next rest shape => exact absurd (head_is_iff.mpr ⟨rest, shape⟩) dot
      next => rfl
  · rw [Bool.eq_false_iff.mpr here]
    rfl

theorem value_from_spec {front later : List Char} {offset : Nat} (sized : item.size = size item.text)
    (split : item.text = front ++ later) (place : offset = size front) :
    valueFrom item.item item.text offset = .ok (Binding.valueFrom item offset later).item := by
  have room : item.size - offset = size later := by
    rw [sized, split, size_append, place]
    omega
  have part : slice item.text offset (size item.text) = .ok (Slice.mk (item.start + offset) (size later) later).text := by
    have whole : (Slice.mk (item.start + offset) (size later) later).text = later := take_bytes_all later
    rw [whole]
    exact slice_from_parts split place
  obtain ⟨range, runs, bounds, _⟩ := trimmed_spec part (show _ = item.start + offset from rfl)
  rw [valueFrom, runs, ok_bind, Binding.valueFrom, room, ← bounds]
  rfl

theorem of_token_spec (ascii : g.InAscii) {token : List Char} (signed : (BindingStyle.token token).isSigned = true)
    (sized : item.size = size item.text) :
    ofToken g item.item item.text token = .ok ((Binding.ofToken? g item token).map Binding.assignment) := by
  obtain ⟨nonempty, signs⟩ := signs_of_style signed
  have small : Ascii token := fun c member => ascii_of_sign (signs c member)
  unfold ofToken Binding.ofToken?
  dsimp only
  rw [find_token_spec ascii nonempty signs, ok_bind]
  cases found : SnippetReview.findToken g item.text token with
  | none => rfl
  | some v =>
    obtain ⟨done, parts, offset⟩ := token_parts nonempty found
    have written : slice item.text 0 v.offset = .ok done :=
      slice_to_parts (by rw [parts, List.append_assoc]) offset
    have taken : takeBytes v.offset item.text = done := by rw [offset, parts, List.append_assoc, take_bytes_append]
    have value : valueFrom item.item item.text (v.offset + size token) =
        .ok (Binding.valueFrom item (v.offset + token.length) (v.rest.drop (token.length - 1))).item := by
      rw [size_of_ascii small]
      exact value_from_spec sized parts (by rw [offset, size_append, size_of_ascii small])
    simp only [Option.map_some, written, ok_bind, clean_key_spec, taken, Option.bind_eq_bind, Option.bind_some]
    cases cleanKey? done with
    | none => rfl
    | some key =>
      simp only [value, ok_bind]
      rfl

theorem rest_of_receiver {rest : List Char} (after : Binding.afterReceiver? receiver text = some rest) :
    sliceFrom text (size receiver + 1) = .ok rest := by
  have dot : '.'.utf8Size = 1 := by decide
  refine slice_from_parts (p := receiver ++ ['.']) ?_ (by rw [size_append, size_singleton, dot])
  rw [Binding.after_receiver_split after, List.append_assoc, List.singleton_append]

theorem of_receiver_spec (ascii : g.InAscii) (sized : item.size = size item.text) :
    ofReceiver g receiver item.item item.text = .ok ((Binding.ofReceiver? g receiver item).map Binding.assignment) := by
  unfold ofReceiver Binding.ofReceiver?
  dsimp only
  rw [strip_receiver_spec]
  cases after : Binding.afterReceiver? receiver item.text with
  | none => rfl
  | some rest =>
    simp only [Option.map_some, rest_of_receiver after, ok_bind, Option.bind_eq_bind, Option.bind_some]
    rw [find_token_spec ascii (by decide) (by decide), ok_bind]
    cases found : SnippetReview.findToken g rest ['='] with
    | none => rfl
    | some v =>
      obtain ⟨done, parts, offset⟩ := token_parts (by decide) found
      rw [show v.rest.drop (['='].length - 1) = v.rest from rfl] at parts
      have written : slice rest 0 v.offset = .ok done := slice_to_parts (by rw [parts, List.append_assoc]) offset
      have taken : takeBytes v.offset rest = done := by rw [offset, parts, List.append_assoc, take_bytes_append]
      have dot : '.'.utf8Size = 1 := by decide
      have equals : '='.utf8Size = 1 := by decide
      have whole : item.text = receiver ++ '.' :: (done ++ ['=']) ++ v.rest := by
        rw [Binding.after_receiver_split after, List.append_assoc, List.cons_append, ← parts]
      have place : size receiver + 1 + v.offset + 1 = size (receiver ++ '.' :: (done ++ ['='])) := by
        rw [size_append, size_cons, size_append, size_singleton, dot, equals, offset]
        omega
      have place' : size item.text - size rest + v.offset + 1 = size receiver + 1 + v.offset + 1 := by
        rw [Binding.after_receiver_split after, size_append, size_cons, dot]
        omega
      have value := value_from_spec sized whole place
      simp only [Option.map_some, written, ok_bind, Option.bind_some, taken, place', value]
      split <;> rfl

theorem take_while_bytes {p : Char → Bool} (test : IsByteTest p) (s : List Char) :
    ((bytes s).takeWhile fun b => p (charOf b)).length = size (s.takeWhile p) := by
  induction s with
  | nil => rfl
  | cons c rest ih =>
    rw [bytes_cons]
    by_cases accepted : p c = true
    · rw [List.takeWhile_append_of_pos fun b member => (test_of_mem_encode test member).trans accepted,
        List.length_append, ih, String.length_utf8EncodeChar, List.takeWhile_cons_of_pos accepted, size_cons]
    · have stops : ¬ p (charOf (firstByte c)) = true := by rwa [test_first test]
      rw [List.takeWhile_cons_of_neg accepted, encode_first, List.cons_append,
        List.takeWhile_cons_of_neg (p := fun b => p (charOf b)) stops]
      rfl

def closing? (g : Grammar) (inner : List Char) (closing : Char) : Option Visit :=
  (SnippetReview.matchingClose g inner closing).filter fun v => (trim v.rest).isEmpty

theorem closing_bind {α : Type} (inner : List Char) (closing : Char) (f : Visit → α) :
    ((SnippetReview.matchingClose g inner closing).bind fun v => if (trim v.rest).isEmpty then some (f v) else none) =
      (closing? g inner closing).map f := by
  unfold closing?
  cases SnippetReview.matchingClose g inner closing with
  | none => rfl
  | some v =>
    rw [Option.bind_some, Option.filter_some]
    cases (trim v.rest).isEmpty <;> rfl

theorem closing_stands {inner : List Char} {closing : Char} {v : Visit} (found : closing? g inner closing = some v) :
    (trim v.rest).isEmpty = true ∧ ∃ done, inner = done ++ closing :: v.rest ∧ v.offset = size done := by
  rw [closing?, Option.filter_eq_some_iff] at found
  obtain ⟨same, done, stands⟩ := stands_of_close found.1
  exact ⟨found.2, done, same ▸ stands.text, stands.offset⟩

theorem closed_at_spec (ascii : g.InAscii) {closing : Char} (small : closing.toNat < 128) {front inner q : List Char}
    {c : Char} (one : c.utf8Size = 1) (parts : text = front ++ c :: inner ++ q) :
    closedAt g text (size front) (size front + 1 + size inner) closing =
      .ok ((closing? g inner closing).map fun v => size front + 1 + v.offset) := by
  have inside : slice text (size front + 1) (size front + 1 + size inner) = .ok inner := by
    have start : size front + 1 = size (front ++ [c]) := by rw [size_append, size_singleton, one]
    exact slice_of_parts (q := q) (by rw [parts]; simp only [List.append_assoc, List.cons_append, List.nil_append])
      start (by rw [start])
  rw [closedAt, inside, ok_bind, matching_close_spec ascii inner small, ok_bind, closing?]
  cases found : SnippetReview.matchingClose g inner closing with
  | none => rfl
  | some v =>
    obtain ⟨same, done, stands⟩ := stands_of_close found
    have one' := utf8_size_ascii small
    have split := stands.text
    rw [same] at split
    have start : size front + 1 + v.offset + 1 = size (front ++ c :: (done ++ [closing])) := by
      rw [size_append, size_cons, size_append, size_singleton, one, one', stands.offset]
      omega
    have stop : size front + 1 + size inner = size (front ++ c :: (done ++ [closing])) + size v.rest := by
      rw [split, ← start, size_append, size_cons, one', stands.offset]
      omega
    have behind : slice text (size front + 1 + v.offset + 1) (size front + 1 + size inner) = .ok v.rest := by
      refine slice_of_parts (q := q) ?_ start stop
      rw [parts, split]
      simp only [List.append_assoc, List.cons_append, List.nil_append]
    simp only [Option.map_some, behind, ok_bind, Option.filter_some]
    cases (trim v.rest).isEmpty <;> rfl

def argument? (g : Grammar) (item : Slice) (arguments : List Char) : Option Slice :=
  let opened := size item.text - size arguments
  match arguments with
  | '(' :: inner => (closing? g inner ')').map fun v => Slice.trim ⟨item.start + opened + 1, v.offset, inner⟩
  | '\x7b' :: inner => (closing? g inner '\x7d').map fun v => ⟨item.start + opened, v.offset + 2, arguments⟩
  | _ => none

theorem argument_none (item : Slice) {arguments : List Char} (noParen : ∀ inner, arguments ≠ '(' :: inner)
    (noBrace : ∀ inner, arguments ≠ '\x7b' :: inner) : argument? g item arguments = none := by
  unfold argument?
  dsimp only
  split
  next inner => exact absurd rfl (noParen inner)
  next inner => exact absurd rfl (noBrace inner)
  next => rfl

theorem of_setter_eq (receiver : List Char) (item : Slice) :
    Binding.ofSetter? g receiver item =
      (Binding.afterReceiver? receiver item.text).bind fun rest =>
        (Binding.setterProperty? (rest.takeWhile isIdentChar)).bind fun property =>
          (argument? g item (trimStart (rest.dropWhile isIdentChar))).map fun value =>
            ⟨Binding.propertyKey g.naming property, value, false⟩ := by
  unfold Binding.ofSetter?
  dsimp only
  refine congrArg (Option.bind _) (funext fun rest => congrArg (Option.bind _) (funext fun property => ?_))
  generalize trimStart (rest.dropWhile isIdentChar) = arguments
  split
  next inner =>
    refine (closing_bind inner ')' _).trans ?_
    change _ = ((closing? g inner ')').map _).map _
    rw [Option.map_map]
    rfl
  next inner =>
    refine (closing_bind inner '\x7d' _).trans ?_
    change _ = ((closing? g inner '\x7d').map _).map _
    rw [Option.map_map]
    rfl
  next noParen noBrace => rw [argument_none item noParen noBrace]; rfl

-- What parentheses hold is trimmed where it stands.
theorem in_parentheses_spec {front inner : List Char} {v : Visit} (parts : item.text = front ++ '(' :: inner)
    (found : closing? g inner ')' = some v) :
    ∃ range, trimmed item.text (size front + 1) (size front + 1 + v.offset) = .ok range ∧
      (Slice.trim ⟨item.start + size front + 1, v.offset, inner⟩).item = range.shift item.start := by
  obtain ⟨_, done, split, offset⟩ := closing_stands found
  have text : (Slice.mk (item.start + size front + 1) v.offset inner).text = done := by
    rw [Slice.text, offset, split, take_bytes_append]
  have one : '('.utf8Size = 1 := by decide
  have part : slice item.text (size front + 1) (size front + 1 + v.offset) =
      .ok (Slice.mk (item.start + size front + 1) v.offset inner).text := by
    rw [text]
    exact slice_of_parts (p := front ++ ['(']) (q := ')' :: v.rest)
      (by rw [parts, split]; simp only [List.append_assoc, List.cons_append, List.nil_append])
      (by rw [size_append, size_singleton, one]) (by rw [size_append, size_singleton, one, offset])
  obtain ⟨range, runs, bounds, _⟩ := trimmed_spec part (Nat.add_assoc item.start _ _)
  exact ⟨range, runs, bounds.symm⟩

theorem argument_at_spec (ascii : g.InAscii) {front arguments : List Char} (parts : item.text = front ++ arguments) :
    argumentAt g item.item item.text (size front) = .ok ((argument? g item arguments).map Slice.item) := by
  have here : (bytes item.text)[size front]? = arguments.head?.map firstByte := by
    rw [parts]
    exact get_first front arguments
  have opened : size item.text - size arguments = size front := by
    rw [parts, size_append]
    omega
  unfold argumentAt
  rw [here]
  cases arguments with
  | nil => rfl
  | cons c inner =>
    have closed : ∀ {closing : Char}, closing.toNat < 128 → c.utf8Size = 1 →
        closedAt g item.text (size front) (size item.text) closing =
          .ok ((closing? g inner closing).map fun v => size front + 1 + v.offset) := by
      intro closing small one
      have stop : size item.text = size front + 1 + size inner := by
        rw [parts, size_append, size_cons, one, Nat.add_assoc]
      rw [stop]
      exact closed_at_spec ascii small one (q := []) (by rw [parts, List.append_nil])
    simp only [List.head?_cons, Option.map_some, Option.bind_some, closer, first_is (show '('.toNat < 128 by decide),
      first_is (show '\x7b'.toNat < 128 by decide), beq_iff_eq]
    by_cases paren : c = '('
    · subst paren
      have shape : argument? g item ('(' :: inner) =
          (closing? g inner ')').map fun v => Slice.trim ⟨item.start + size front + 1, v.offset, inner⟩ := by
        rw [← opened]
        rfl
      simp only [if_true, closed (show ')'.toNat < 128 by decide) (by decide), ok_bind, shape]
      cases found : closing? g inner ')' with
      | none => rfl
      | some v =>
        obtain ⟨range, runs, bounds⟩ := in_parentheses_spec parts found
        simp only [Option.map_some, Bool.false_eq_true, if_false, runs, ok_bind, bounds]
        rfl
    · by_cases brace : c = '\x7b'
      · subst brace
        have shape : argument? g item ('\x7b' :: inner) =
            (closing? g inner '\x7d').map fun v => ⟨item.start + size front, v.offset + 2, '\x7b' :: inner⟩ := by
          rw [← opened]
          rfl
        simp only [if_neg paren, if_true, closed (show '\x7d'.toNat < 128 by decide) (by decide), ok_bind, shape]
        cases closing? g inner '\x7d' with
        | none => rfl
        | some v =>
          have stop : item.start + (size front + 1 + v.offset + 1) = item.start + size front + (v.offset + 2) := by omega
          exact congrArg (fun stop => Except.ok (some (Item.mk (item.start + size front) stop))) stop
      · rw [if_neg paren, if_neg brace, argument_none item (fun inner same => paren (List.cons.inj same).1) fun inner same =>
          brace (List.cons.inj same).1]
        rfl

theorem of_setter_spec (ascii : g.InAscii) :
    ofSetter g receiver item.item item.text = .ok ((Binding.ofSetter? g receiver item).map Binding.assignment) := by
  rw [of_setter_eq, ofSetter, strip_receiver_spec]
  cases after : Binding.afterReceiver? receiver item.text with
  | none => rfl
  | some rest =>
    have split : rest = rest.takeWhile isIdentChar ++ rest.dropWhile isIdentChar := List.takeWhile_append_dropWhile.symm
    have name : slice rest 0 (size (rest.takeWhile isIdentChar)) = .ok (rest.takeWhile isIdentChar) :=
      slice_to_parts split rfl
    have behind : sliceFrom rest (size (rest.takeWhile isIdentChar)) = .ok (rest.dropWhile isIdentChar) :=
      slice_from_parts split rfl
    obtain ⟨lead, _, trimmed⟩ := trim_start_split (rest.dropWhile isIdentChar)
    have room : minus (size (rest.dropWhile isIdentChar)) (size (trimStart (rest.dropWhile isIdentChar))) = .ok (size lead) :=
      minus_of_parts trimmed
    have whole : item.text = receiver ++ '.' :: (rest.takeWhile isIdentChar ++ lead) ++
        trimStart (rest.dropWhile isIdentChar) := by
      rw [Binding.after_receiver_split after, List.append_assoc, List.cons_append, List.append_assoc, ← trimmed, ← split]
    have opened : size receiver + 1 + size (rest.takeWhile isIdentChar) + size lead =
        size (receiver ++ '.' :: (rest.takeWhile isIdentChar ++ lead)) := by
      have dot : '.'.utf8Size = 1 := by decide
      rw [size_append, size_cons, size_append, dot]
      omega
    have argument := argument_at_spec ascii whole
    simp only [Option.map_some, rest_of_receiver after, ok_bind, take_while_bytes ident_char_test, name, Option.bind_some]
    cases Binding.setterProperty? (rest.takeWhile isIdentChar) with
    | none => rfl
    | some property =>
      simp only [behind, ok_bind, room, opened, argument, Option.bind_some]
      cases argument? g item (trimStart (rest.dropWhile isIdentChar)) <;> rfl

theorem of_method_eq (item : Slice) : ofMethod item.item item.text = (Binding.ofMethod? item).map Binding.assignment := by
  unfold ofMethod Binding.ofMethod?
  simp only [Option.bind_eq_bind, Option.map_bind]
  refine congrArg (Option.bind _) (funext fun found => ?_)
  rw [Function.comp, Option.map_bind]
  refine congrArg (Option.bind _) (funext fun name => ?_)
  dsimp only [Function.comp]
  split <;> rfl

theorem of_style_spec (signed : g.Signed) (lies : item.LiesIn 0 source) {style : BindingStyle} (member : style ∈ g.bindings) :
    ofStyle g source receiver item.item style = .ok ((Binding.ofStyle? g receiver item style).map Binding.assignment) := by
  have sized := lies.size_eq
  rw [ofStyle, text_of_lies lies, ok_bind]
  cases style with
  | token token => exact of_token_spec signed.toInAscii (signed.tokens _ member) sized
  | receiver => exact of_receiver_spec signed.toInAscii sized
  | setter => exact of_setter_spec signed.toInAscii
  | method => exact congrArg Except.ok (of_method_eq item)

theorem of_item_spec (signed : g.Signed) (lies : item.LiesIn 0 source) :
    ofItem g source receiver item.item = .ok ((Binding.ofItem? g receiver item).map Binding.assignment) := by
  rw [ofItem, find_some_m_of_ok fun style member => of_style_spec signed lies member, Binding.ofItem?, List.map_findSome?]
  rfl

end

end Bytewise

end SnippetReview
