import SnippetReview.Proofs.Bytewise.Assigning
import SnippetReview.Proofs.Bytewise.Inferring
import SnippetReview.Proofs.Bytewise.Lines
import SnippetReview.Proofs.Snippet.Locating

set_option autoImplicit false

namespace SnippetReview

open Text

namespace Bytewise

structure Block where
  start : Nat
  stop : Nat
  receiver : List Char
deriving DecidableEq, Repr

def codeMap (g : Grammar) (text : List Char) : Checked (Array (Nat × Nat)) := do
  let spans ← segment g text
  return ((spans.filter fun span => span.kind = .code).map fun span => (span.start, span.stop)).toArray

def codeBefore (code : Array (Nat × Nat)) (pos : Nat) : Nat := Search.boundary (fun span => span.1 ≤ pos) code

def endsAfter (code : Array (Nat × Nat)) (i pos : Nat) : Checked Bool :=
  match code[i]? with
  | some span => return decide (pos < span.2)
  | none => .error .index

def isCode (code : Array (Nat × Nat)) (pos : Nat) : Checked Bool :=
  if 0 < codeBefore code pos then do
    let last ← minus (codeBefore code pos) 1
    endsAfter code last pos
  else return false

def namesWordAt (body word : List Char) (b : CodeByte) : Checked Bool :=
  match b.word with
  | some (start, stop) => do
    let found ← slice body start stop
    return found == word
  | none => return false

def endsLine (b : CodeByte) : Bool := charOf b.byte == '\n' && (b.previous.map fun p => charOf p != ',').getD false

def bodyEnd (g : Grammar) (text : List Char) (start : Nat) (anchorText : List Char) (ending : BodyEnd) :
    Checked (Option Nat) := do
  let body ← sliceFrom text start
  match ending with
  | .delimiter closing => do
    let relative ← matchingClose g body closing
    return relative.map (start + ·)
  | .keyword word => do
    let relative ← findAtDepthZero g body (namesWordAt body word)
    return relative.map (start + ·)
  | .statement =>
    if (trimEnd anchorText).getLast? == some ',' then do
      let stop ← findAtDepthZero g body fun b => return endsLine b
      return some (start + stop.getD (size body))
    else return some start

def unwrapList (g : Grammar) (text : List Char) (start stop : Nat) : Checked (Nat × Nat) := do
  let body ← slice text start stop
  let blanks ← minus (size body) (size (trimStart body))
  if (trimStart body).head? == some '[' then
    match ← closedAt g text (start + blanks) stop ']' with
    | some close => return (start + blanks + 1, close)
    | none => return (start, stop)
  else return (start, stop)

def innerBounds (g : Grammar) (text : List Char) (ending : BodyEnd) (start stop : Nat) : Checked (Nat × Nat) :=
  if ending = .statement then unwrapList g text start stop else return (start, stop)

def ofAnchor (g : Grammar) (text : List Char) (anchor : Anchor) (found : Pattern.Match) : Checked (Except Notice Block) := do
  match ← bodyEnd g text found.stop.offset found.text anchor.bodyEnd with
  | none => do
    let position ← positionOf text found.start.offset
    return .error ⟨.neverClosed (String.ofList (trim found.text)), some position⟩
  | some stop => do
    let (start, stop) ← innerBounds g text anchor.bodyEnd found.stop.offset stop
    return .ok ⟨start, stop, found.group.getD g.defaultReceiver⟩

def inCode (p : Pattern) (code : Array (Nat × Nat)) (text : List Char) : Checked (Option Pattern.Match) :=
  (p.all text).findM? fun found => isCode code found.start.offset

def anchorIn (code : Array (Nat × Nat)) (text : List Char) (anchor : Anchor) : Checked (Option (Anchor × Pattern.Match)) := do
  let found ← inCode anchor.pattern code text
  return found.map fun found => (anchor, found)

def ofLiteral (g : Grammar) (text : List Char) (offset : Nat) (opening closing : Char) : Checked (Option Block) := do
  let first ← byteAt (bytes (trim text)) 0
  if charOf first == opening then
    match ← closedAt g text offset (size text) closing with
    | some close => return some ⟨offset + 1, close, g.defaultReceiver⟩
    | none => return none
  else return none

def bindsReceiver (g : Grammar) (text receiver : List Char) (first : Item) (style : BindingStyle) : Checked Bool :=
  if style = .receiver || style = .setter then do
    let bound ← ofStyle g text receiver first style
    return bound.isSome
  else return false

def nameLength (bs : List UInt8) : Nat := (bs.takeWhile fun b => isIdentChar (charOf b) || charOf b == '$').length

def ofStatements (g : Grammar) (text : List Char) : Checked (Option Block) :=
  if nameLength (bytes (trim text)) = 0 ∨ (bytes (trim text))[nameLength (bytes (trim text))]?.map charOf ≠ some '.' then
    return none
  else do
    let receiver ← slice (trim text) 0 (nameLength (bytes (trim text)))
    match ← split g 0 text g.separators with
    | [] => return none
    | first :: _ => do
      let known ← g.bindings.anyM (bindsReceiver g text receiver first)
      return if known then some ⟨0, size text, receiver⟩ else none

def ofBare (g : Grammar) (text : List Char) : Checked (Option Block) :=
  if (trim text).isEmpty then return none
  else do
    let offset ← minus (size text) (size (trimStart text))
    match g.bareForm with
    | none => return none
    | some (.delimited opening closing) => ofLiteral g text offset opening closing
    | some .receiverStatements => ofStatements g text

def wordIn (code : Array (Nat × Nat)) (text word : List Char) : Checked (Option (List Char × Nat)) := do
  let found ← inCode (.exactly word) code text
  return found.map fun found => (word, found.start.offset)

def missing (host : Host) (code : Array (Nat × Nat)) (text : List Char) : Checked Notice := do
  match ← host.grammar.anchorWords.findSomeM? (wordIn code text) with
  | some (word, offset) => do
    let position ← positionOf text offset
    return ⟨.noConfiguration (String.ofList word), some position⟩
  | none => return ⟨.nothingFound host, none⟩

def locate (host : Host) (text : List Char) : Checked (Except Notice Block) := do
  let code ← codeMap host.grammar text
  match ← host.grammar.anchors.findSomeM? (anchorIn code text) with
  | some (anchor, found) => ofAnchor host.grammar text anchor found
  | none =>
    match ← ofBare host.grammar text with
    | some block => return .ok block
    | none => do
      let notice ← missing host code text
      return .error notice

end Bytewise

def BodyEnd.isAscii : BodyEnd → Bool
  | .delimiter closing => closing.toNat < 128
  | _ => true

def BareForm.isAscii : BareForm → Bool
  | .delimited opening closing => opening.toNat < 128 && closing.toNat < 128
  | .receiverStatements => true

structure Grammar.Bracketed (g : Grammar) : Prop extends g.Valued where
  anchors : ∀ anchor ∈ g.anchors, anchor.bodyEnd.isAscii = true
  bareForm : ∀ form ∈ g.bareForm, form.isAscii = true

def Block.bounds (b : Block) : Bytewise.Block := ⟨b.body.start, b.body.stop, b.receiver⟩

namespace Search

variable {α : Type}

theorem boundary_within_le (before : α → Bool) (xs : Array α) (low high : Nat) (ordered : low ≤ high) (bound : high ≤ xs.size) :
    boundaryWithin before xs low high bound ≤ high := by
  fun_induction boundaryWithin before xs low high bound with
  | case1 low high bound inside middle holds ih => exact ih (by omega)
  | case2 low high bound inside middle fails ih => exact Nat.le_trans (ih (by omega)) (by omega)
  | case3 low high bound outside => exact ordered

end Search

namespace Bytewise

section

variable {g : Grammar} {text : List Char}

theorem code_map_spec (ascii : g.InAscii) (text : List Char) : codeMap g text = .ok (CodeMap.ofText g text).code := by
  rw [codeMap, segment_eq ascii, ok_bind, List.filter_map, List.map_map]
  rfl

theorem is_code_spec (code : Array (Nat × Nat)) (pos : Nat) : isCode code pos = .ok ((CodeMap.mk code).isCode pos) := by
  -- The search stays within the array, so the span before its result is there.
  have bound : codeBefore code pos ≤ code.size := Search.boundary_within_le _ code 0 code.size (Nat.zero_le _) (Nat.le_refl _)
  unfold isCode CodeMap.isCode
  rw [show Search.boundary (fun span => decide (span.1 ≤ pos)) (CodeMap.mk code).code = codeBefore code pos from rfl]
  cases index : codeBefore code pos with
  | zero => rfl
  | succ n =>
    have inside : n < code.size := by omega
    dsimp only
    rw [if_pos (Nat.succ_pos n), minus_of_le (Nat.le_add_left 1 n), ok_bind, Nat.add_sub_cancel, endsAfter,
      Array.getElem?_eq_getElem inside]
    rfl

theorem in_code_spec (p : Pattern) (code : Array (Nat × Nat)) (text : List Char) :
    inCode p code text = .ok ((p.all text).find? fun found => (CodeMap.mk code).isCode found.start.offset) :=
  find_m_of_ok fun found _ => is_code_spec code found.start.offset

theorem names_word_spec {body : List Char} {v : Visit} (member : v ∈ visits g body) (word : List Char) :
    namesWordAt body word v.sight = .ok (v.word == some word) := by
  obtain ⟨done, stands⟩ := stands_of_visits member
  have told := word_of_visits member
  unfold namesWordAt
  rw [show v.sight.word = v.word.map fun word => (v.offset, v.offset + size word) from rfl]
  cases named : v.word with
  | none => rfl
  | some found =>
    -- The word is the run of identifier characters from here on.
    have run : found = v.char :: v.rest.takeWhile isIdentChar := by
      have some := (word_at_some (by rw [← told, named]; rfl)).2.1
      rw [← told, named] at some
      exact Option.some.inj some
    have part : slice body v.offset (v.offset + size found) = .ok found := by
      refine slice_of_parts (q := v.rest.dropWhile isIdentChar) ?_ stands.offset (by rw [stands.offset])
      rw [stands.text, run, List.append_assoc, List.cons_append, List.takeWhile_append_dropWhile]
    rw [Option.map_some]
    dsimp only
    rw [part, ok_bind, Option.some_beq_some]
    rfl

theorem keyword_end_spec (ascii : g.InAscii) (body word : List Char) :
    findAtDepthZero g body (namesWordAt body word) = .ok ((findOutside g body fun v => v.word == some word).map (·.offset)) := by
  refine find_at_depth_zero_spec ascii (fun x untold _ => ?_) (fun v member _ => names_word_spec member word) fun v untold => ?_
  · rw [CodeByte.telling, Bool.or_eq_false_iff, Option.isSome_eq_false_iff, Option.isNone_iff_eq_none] at untold
    rw [namesWordAt, untold.1]
    rfl
  · rw [Visit.telling, Bool.or_eq_false_iff, Option.isSome_eq_false_iff, Option.isNone_iff_eq_none] at untold
    rw [untold.1]
    rfl

theorem line_end_spec (ascii : g.InAscii) (body : List Char) :
    findAtDepthZero g body (fun b => return endsLine b) = .ok
      ((findOutside g body fun v => v.char == '\n' && (v.previous.map (· != ',')).getD false).map (·.offset)) := by
  have feed : ∀ c, isIdentChar c = true → (c == '\n') = false := fun c ident => (not_sign_of_ident ident).2.2.2.2.2.2
  refine find_at_depth_zero_spec ascii (fun x untold _ => ?_) (fun v _ _ => ?_) fun v untold => ?_
  · rw [endsLine, feed _ (ident_of_untold untold)]
    rfl
  · have comma : (v.sight.previous.map fun p => charOf p != ',') = v.previous.map (· != ',') := by
      unfold Visit.sight
      rw [Option.map_map]
      exact congrFun (congrArg Option.map (funext fun c => congrArg (!·) (last_is (by decide) c))) v.previous
    rw [endsLine, comma, show (charOf v.sight.byte == '\n') = (v.char == '\n') from first_is (by decide) v.char]
    rfl
  · rw [feed _ (ident_of_untold_visit untold), Bool.false_and]

theorem body_end_spec (ascii : g.InAscii) {ending : BodyEnd} (small : ending.isAscii = true) {front body : List Char}
    (parts : text = front ++ body) (anchorText : List Char) :
    bodyEnd g text (size front) anchorText ending = .ok ((Block.bodySize? g anchorText body ending).map (size front + ·)) := by
  rw [bodyEnd, slice_from_parts parts rfl, ok_bind]
  cases ending with
  | delimiter closing =>
    simp only [matching_close_spec ascii body (of_decide_eq_true small), ok_bind, Block.bodySize?]
    rfl
  | keyword word =>
    simp only [keyword_end_spec ascii body word, ok_bind, Block.bodySize?]
    rfl
  | statement =>
    rw [Block.bodySize?]
    dsimp only
    split
    · rw [line_end_spec ascii body]
      rfl
    · rfl

theorem unwrap_list_eq {body : Slice} {inner : List Char} (shape : trimStart body.text = '[' :: inner) :
    Block.unwrapList g body =
      ((closing? g inner ']').map fun v => ⟨body.start + (size body.text - size inner), v.offset, inner⟩).getD body := by
  unfold Block.unwrapList
  dsimp only
  split
  next inner' shape' =>
    obtain rfl := (List.cons.inj (shape'.symm.trans shape)).2
    unfold closing?
    cases SnippetReview.matchingClose g inner' ']' with
    | none => rfl
    | some v =>
      rw [Option.filter_some]
      dsimp only
      cases (trim v.rest).isEmpty <;> rfl
  next other => exact absurd shape (other inner)

theorem unwrap_list_other {body : Slice} (other : ∀ inner, trimStart body.text ≠ '[' :: inner) :
    Block.unwrapList g body = body := by
  unfold Block.unwrapList
  dsimp only
  split
  next inner shape => exact absurd shape (other inner)
  next => rfl

theorem unwrap_list_spec (ascii : g.InAscii) {front piece later after : List Char} (parts : text = front ++ piece ++ later)
    {body : Slice} (place : body = Slice.place (size front) piece after) :
    unwrapList g text (size front) (size front + size piece) = .ok
      ((Block.unwrapList g body).start, (Block.unwrapList g body).stop) := by
  have inside : body.text = piece := by rw [place, Slice.text_place]
  have start : body.start = size front := by rw [place, Slice.start_place]
  have stop : body.stop = size front + size piece := by rw [place, Slice.stop, Slice.start_place, Slice.size_place]
  obtain ⟨lead, _, trimmed⟩ := trim_start_split piece
  have room : minus (size piece) (size (trimStart piece)) = .ok (size lead) := minus_of_parts trimmed
  rw [unwrapList, slice_of_parts parts rfl rfl, ok_bind, room, ok_bind]
  by_cases bracket : ((trimStart piece).head? == some '[') = true
  · obtain ⟨inner, shape⟩ := head_is_iff.mp bracket
    rw [shape] at trimmed
    have one : '['.utf8Size = 1 := by decide
    have opened : size piece - size inner = size lead + 1 := by
      rw [trimmed, size_append, size_cons, one]
      omega
    have ends : size front + size piece = size (front ++ lead) + 1 + size inner := by
      rw [trimmed, size_append, size_append, size_cons, one]
      omega
    have whole : text = (front ++ lead) ++ '[' :: inner ++ later := by
      rw [parts, trimmed]
      simp only [List.append_assoc, List.cons_append]
    have closed := closed_at_spec ascii (show ']'.toNat < 128 by decide) one whole
    rw [← ends, size_append] at closed
    rw [if_pos bracket, closed, ok_bind, unwrap_list_eq (by rw [inside, shape]), inside, start, opened]
    cases closing? g inner ']' with
    | none =>
      rw [Option.map_none, Option.map_none, Option.getD_none, start, stop]
      rfl
    | some v =>
      rw [Option.map_some, Option.map_some, Option.getD_some]
      rfl
  · rw [if_neg bracket, unwrap_list_other (by rw [inside]; exact fun inner shape => bracket (head_is_iff.mpr ⟨inner, shape⟩)),
      start, stop]
    rfl

theorem of_anchor_spec (bracketed : g.Bracketed) {anchor : Anchor} (member : anchor ∈ g.anchors) {found : Pattern.Match}
    (inside : found.In text) :
    ofAnchor g text anchor found = .ok ((Block.ofAnchor g text anchor found).map Block.bounds) := by
  have ascii := bracketed.toInAscii
  obtain ⟨front, split, place⟩ := inside.2
  have ending := body_end_spec ascii (bracketed.anchors anchor member) split found.text
  unfold ofAnchor Block.ofAnchor
  dsimp only
  rw [place, ending, ok_bind]
  cases size : Block.bodySize? g found.text found.stop.rest anchor.bodyEnd with
  | none =>
    simp only [Option.map_none, position_of_spec, ok_bind]
    rfl
  | some n =>
    -- The body ends between two characters, which the slice that is unwrapped needs.
    obtain ⟨piece, later, parts, same⟩ := Block.body_size_parts size
    have whole : text = front ++ piece ++ later := by rw [split, parts, List.append_assoc]
    have body : (⟨Text.size front, n, found.stop.rest⟩ : Slice) = Slice.place (Text.size front) piece later := by
      rw [Slice.place, same, parts]
    have inner : innerBounds g text anchor.bodyEnd (Text.size front) (Text.size front + n) = .ok
        ((if anchor.bodyEnd = .statement then Block.unwrapList g ⟨Text.size front, n, found.stop.rest⟩
          else ⟨Text.size front, n, found.stop.rest⟩).start,
        (if anchor.bodyEnd = .statement then Block.unwrapList g ⟨Text.size front, n, found.stop.rest⟩
          else ⟨Text.size front, n, found.stop.rest⟩).stop) := by
      unfold innerBounds
      by_cases statement : anchor.bodyEnd = .statement
      · rw [if_pos statement, if_pos statement, same]
        rw [same] at body
        exact unwrap_list_spec ascii whole body
      · rw [if_neg statement, if_neg statement]
        rfl
    simp only [Option.map_some, inner, ok_bind]
    rfl

theorem of_literal_spec (ascii : g.InAscii) {lead inner : List Char} {c opening closing : Char}
    (small : opening.toNat < 128) (small' : closing.toNat < 128) (split : text = lead ++ c :: inner)
    (shape : trimStart text = c :: inner) (some : trim text ≠ []) :
    ofLiteral g text (size lead) opening closing = .ok ((Block.ofLiteral? g text opening closing).map Block.bounds) := by
  obtain ⟨trail, trailing⟩ := trim_end_split (trimStart text)
  have first : ∃ rest, trim text = c :: rest := by
    obtain ⟨d, rest, same⟩ := List.exists_cons_of_ne_nil some
    rw [← trim, same, shape, List.cons_append, List.cons.injEq] at trailing
    exact ⟨rest, by rw [same, trailing.1]⟩
  obtain ⟨rest, begins⟩ := first
  have byte : byteAt (bytes (trim text)) 0 = .ok (firstByte c) := by
    rw [begins]
    exact byte_at_first (p := []) rfl
  unfold ofLiteral Block.ofLiteral?
  rw [byte, ok_bind, first_is small, shape]
  dsimp only
  by_cases same : (c == opening) = true
  · have one : c.utf8Size = 1 := by rw [beq_iff_eq.mp same, utf8_size_ascii small]
    have stop : size text = size lead + 1 + size inner := by
      rw [split, size_append, size_cons, one]
      omega
    have start : size text - size inner = size lead + 1 := by omega
    have closed := closed_at_spec ascii small' one (show text = lead ++ c :: inner ++ [] by rw [List.append_nil]; exact split)
    rw [← stop] at closed
    rw [if_pos same, if_pos same, closed, ok_bind, start, closing?]
    cases SnippetReview.matchingClose g inner closing with
    | none => rfl
    | some v =>
      rw [Option.filter_some]
      dsimp only
      cases (trim v.rest).isEmpty <;> rfl
  · rw [if_neg same, if_neg same]
    rfl

theorem any_m_of_ok {α : Type} {p : α → Checked Bool} {q : α → Bool} {list : List α}
    (checked : ∀ a ∈ list, p a = .ok (q a)) : list.anyM p = .ok (list.any q) := by
  induction list with
  | nil => rfl
  | cons a rest ih =>
    rw [List.anyM, checked a List.mem_cons_self, ok_bind, List.any_cons,
      ih fun b member => checked b (List.mem_cons_of_mem a member)]
    cases q a <;> rfl

theorem of_statements_spec (signed : g.Signed) (text : List Char) :
    ofStatements g text = .ok ((Block.ofStatements? g text).map Block.bounds) := by
  have ascii := signed.toInAscii
  have test : IsByteTest fun c => isIdentChar c || c == '$' := byte_test_or ident_char_test (byte_test_beq (by decide))
  have length : nameLength (bytes (trim text)) = size ((trim text).takeWhile fun c => isIdentChar c || c == '$') :=
    take_while_bytes test (trim text)
  unfold ofStatements Block.ofStatements?
  dsimp only
  rw [length]
  have parts : trim text = (trim text).takeWhile (fun c => isIdentChar c || c == '$') ++
      (trim text).dropWhile fun c => isIdentChar c || c == '$' := List.takeWhile_append_dropWhile.symm
  generalize (trim text).takeWhile (fun c => isIdentChar c || c == '$') = receiver at parts
  generalize (trim text).dropWhile (fun c => isIdentChar c || c == '$') = rest at parts
  have behind : (bytes (trim text))[size receiver]?.map charOf ≠ some '.' ↔
      (((trim text).drop receiver.length).head? != some '.') = true := by
    rw [parts, get_first, List.drop_left, Option.map_map, bne_iff_ne]
    cases rest with
    | nil => simp
    | cons c rest =>
      have dot := first_is (d := '.') (by decide) c
      rw [Bool.eq_iff_iff, beq_iff_eq, beq_iff_eq] at dot
      simpa using not_congr dot
  have none : size receiver = 0 ↔ receiver.isEmpty = true := by rw [size_eq_zero_iff, List.isEmpty_iff]
  by_cases stands : (receiver.isEmpty || ((trim text).drop receiver.length).head? != some '.') = true
  · rw [if_pos stands, if_pos (by rw [none, behind]; rwa [Bool.or_eq_true] at stands)]
    rfl
  · have name : slice (trim text) 0 (size receiver) = .ok receiver := slice_to_parts parts rfl
    rw [if_neg stands, if_neg (by rw [none, behind]; rwa [Bool.or_eq_true] at stands), name, ok_bind,
      split_spec ascii signed.separators, ok_bind]
    cases first : SnippetReview.split g 0 text g.separators with
    | nil => rfl
    | cons item items =>
      have laid := split_laid (fun c member => utf8_size_ascii (ascii_of_sign (signed.separators c member))) g 0 text
      have lies : item.LiesIn 0 text := (laid.opens item (List.mem_reverse.mpr (by rw [first]; exact List.mem_cons_self))).liesIn
      have each : ∀ style ∈ g.bindings, bindsReceiver g text receiver item.item style =
          .ok ((decide (style = .receiver) || decide (style = .setter)) && (Binding.ofStyle? g receiver item style).isSome) := by
        intro style member
        unfold bindsReceiver
        cases chosen : decide (style = .receiver) || decide (style = .setter) with
        | false => rfl
        | true =>
          rw [if_pos rfl, of_style_spec signed lies member, ok_bind, Option.isSome_map]
          rfl
      rw [List.map_cons]
      dsimp only
      rw [any_m_of_ok each, ok_bind, List.any_filter]
      split
      · exact congrArg (fun stop => Except.ok (some (Block.mk 0 stop receiver))) (Nat.zero_add (size text)).symm
      · rfl

theorem trim_start_of_trim (none : trim text = []) : trimStart text = [] := by
  cases shape : trimStart text with
  | nil => rfl
  | cons c rest =>
    have first := List.head?_dropWhile_not isBlank text
    rw [show text.dropWhile isBlank = trimStart text from rfl, shape] at first
    have whole := List.takeWhile_append_dropWhile (p := isBlank) (l := (trimStart text).reverse)
    rw [trim, trimEnd, dropEndWhile, List.reverse_eq_nil_iff] at none
    rw [none, List.append_nil, shape] at whole
    have blank : isBlank c = true := by
      refine List.all_eq_true.mp (List.all_takeWhile (p := isBlank) (l := (c :: rest).reverse)) c ?_
      rw [whole]
      exact List.mem_reverse.mpr List.mem_cons_self
    simp [blank] at first

theorem of_bare_spec (bracketed : g.Bracketed) (text : List Char) :
    ofBare g text = .ok ((Block.ofBare? g text).map Block.bounds) := by
  obtain ⟨lead, _, split⟩ := trim_start_split text
  unfold ofBare Block.ofBare?
  by_cases none : trim text = []
  · rw [if_pos (List.isEmpty_iff.mpr none)]
    have start := trim_start_of_trim none
    cases g.bareForm with
    | none => rfl
    | some form =>
      cases form with
      | delimited opening closing =>
        dsimp only
        rw [Block.ofLiteral?, start]
        rfl
      | receiverStatements =>
        dsimp only
        rw [Block.ofStatements?, none]
        rfl
  · have room : minus (size text) (size (trimStart text)) = .ok (size lead) := minus_of_parts split
    rw [if_neg fun empty => none (List.isEmpty_iff.mp empty), room, ok_bind]
    cases form : g.bareForm with
    | none => rfl
    | some form' =>
      have small := bracketed.bareForm form' form
      cases form' with
      | receiverStatements => exact of_statements_spec bracketed.toSigned text
      | delimited opening closing =>
        rw [BareForm.isAscii, Bool.and_eq_true, decide_eq_true_eq, decide_eq_true_eq] at small
        cases shape : trimStart text with
        | nil =>
          refine absurd ?_ none
          rw [trim, shape]
          rfl
        | cons c inner =>
          rw [shape] at split
          exact of_literal_spec bracketed.toInAscii small.1 small.2 split shape none

theorem first_anchor_spec (code : Array (Nat × Nat)) (text : List Char) :
    g.anchors.findSomeM? (anchorIn code text) = .ok (Block.firstAnchor? g ⟨code⟩ text) := by
  refine find_some_m_of_ok fun anchor _ => ?_
  rw [anchorIn, in_code_spec, ok_bind]
  rfl

theorem missing_spec (host : Host) (code : Array (Nat × Nat)) (text : List Char) :
    missing host code text = .ok (Block.missing host ⟨code⟩ text) := by
  have words : host.grammar.anchorWords.findSomeM? (wordIn code text) = .ok (host.grammar.anchorWords.findSome? fun word =>
      (((Pattern.exactly word).all text).find? fun found => (CodeMap.mk code).isCode found.start.offset).map fun found =>
        (word, found.start.offset)) := by
    refine find_some_m_of_ok fun word _ => ?_
    rw [wordIn, in_code_spec, ok_bind]
    rfl
  rw [missing, words, ok_bind, Block.missing]
  generalize (host.grammar.anchorWords.findSome? _) = named
  cases named with
  | none => rfl
  | some found =>
    dsimp only
    rw [position_of_spec, ok_bind]
    rfl

theorem locate_spec {host : Host} (bracketed : host.grammar.Bracketed) (text : List Char) :
    locate host text = .ok ((Block.locate host text).map Block.bounds) := by
  rw [locate, code_map_spec bracketed.toInAscii, ok_bind, first_anchor_spec, ok_bind, Block.locate]
  cases first : Block.firstAnchor? host.grammar (CodeMap.ofText host.grammar text) text with
  | some opened =>
    obtain ⟨anchor, found⟩ := opened
    obtain ⟨anchor', member, chosen⟩ := List.exists_of_findSome?_eq_some first
    obtain ⟨found', sought, same⟩ := Option.map_eq_some_iff.mp chosen
    obtain ⟨rfl, rfl⟩ := Prod.mk.inj same
    exact of_anchor_spec bracketed member (Pattern.all_in (List.mem_of_find?_eq_some sought))
  | none =>
    dsimp only
    rw [of_bare_spec bracketed, ok_bind]
    cases Block.ofBare? host.grammar text with
    | some block => rfl
    | none =>
      dsimp only [Option.map_none]
      rw [missing_spec, ok_bind]
      rfl

end

end Bytewise

end SnippetReview
