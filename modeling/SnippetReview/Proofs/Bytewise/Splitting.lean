import SnippetReview.Proofs.Bytewise.Visits
import SnippetReview.Proofs.Snippet.Placing

set_option autoImplicit false

namespace SnippetReview

open Text

namespace Bytewise

structure Item where
  start : Nat
  stop : Nat
deriving DecidableEq, Repr

namespace Item

def text (source : List Char) (item : Item) : Checked (List Char) := slice source item.start item.stop

def shift (base : Nat) (item : Item) : Item := ⟨base + item.start, base + item.stop⟩

end Item

def sliceFrom (s : List Char) (i : Nat) : Checked (List Char) := slice s i (size s)

def trimmed (text : List Char) (start stop : Nat) : Checked Item := do
  let part ← slice text start stop
  let lead ← minus (size part) (size (trimStart part))
  return ⟨start + lead, start + lead + size (trim part)⟩

-- The items so far stand in reverse.
def pushTrimmed (base : Nat) (text : List Char) (start stop : Nat) (items : List Item) : Checked (List Item) := do
  let range ← trimmed text start stop
  return if range.start < range.stop then range.shift base :: items else items

def CodeByte.separates (separators : List Char) (b : CodeByte) : Bool :=
  b.depth == 0 && separators.contains (charOf b.byte)
    && !(charOf b.byte == '\n' && (b.previous.map fun p => continuationChars.contains (charOf p)).getD false)

def cutAt (base : Nat) (text : List Char) (state : Nat × List Item) (b : CodeByte) : Checked (Nat × List Item) := do
  let items ← pushTrimmed base text state.1 b.pos state.2
  return (b.pos + 1, items)

def split (g : Grammar) (base : Nat) (text : List Char) (separators : List Char) : Checked (List Item) := do
  let seen ← codeBytes g text
  let (start, items) ← (seen.filter (CodeByte.separates separators)).foldlM (cutAt base text) (0, [])
  let items ← pushTrimmed base text start (size text) items
  return items.reverse

def tokenHere (bs : List UInt8) (token : List Char) (b : CodeByte) : Checked Bool := do
  let rest ← bytesFrom bs b.pos
  if (bytes token).isPrefixOf rest then do
    let before ← byteBefore bs b.pos
    return !isLookalike token (before.map charOf) (bs[b.pos + size token]?.map charOf)
  else return false

def findToken (g : Grammar) (text token : List Char) : Checked (Option Nat) :=
  findAtDepthZero g text (tokenHere (bytes text) token)

def boundBy (g : Grammar) (text : List Char) : BindingStyle → Checked (Option (List Char))
  | .token token => do
    match ← findToken g text token with
    | some pos => do
      let value ← sliceFrom text (pos + size token)
      return some value
    | none => return none
  | _ => return none

def boundValue (g : Grammar) (text : List Char) : Checked (Option (List Char)) := g.bindings.findSomeM? (boundBy g text)

def awaitsBody (g : Grammar) (text : List Char) : Checked Bool := do
  let bound ← boundValue g text
  let value := trimStart (bound.getD text)
  if g.callables.any (·.matchesIn value) then do
    let found ← findToken g value [':']
    return found.isNone
  else return false

def joins (g : Grammar) (source : List Char) (last : Item) (bound : Option (List Char)) : Checked Bool :=
  if bound.isNone then return true else do awaitsBody g (← last.text source)

def mergeInto (g : Grammar) (source : List Char) (done : List Item) (item : Item) : Checked (List Item) := do
  let bound ← boundValue g (← item.text source)
  match done with
  | [] => return [item]
  | last :: earlier => do
    let joined ← joins g source last bound
    return if joined then ⟨last.start, item.stop⟩ :: earlier else item :: done

def mergeContinuations (g : Grammar) (source : List Char) (items : List Item) : Checked (List Item) := do
  let merged ← items.foldlM (mergeInto g source) []
  return merged.reverse

end Bytewise

def BindingStyle.isSigned : BindingStyle → Bool
  | .token signs => !signs.isEmpty && signs.all fun c => !isIdentChar c
  | _ => true

-- What the bounds of statements rely on: separators and assignment tokens are made of signs.
structure Grammar.Signed (g : Grammar) : Prop extends g.InAscii where
  separators : ∀ c ∈ g.separators, isIdentChar c = false
  tokens : ∀ style ∈ g.bindings, style.isSigned = true

def Text.Slice.item (s : Slice) : Bytewise.Item := ⟨s.start, s.stop⟩

namespace Bytewise

theorem ascii_of_sign {c : Char} (sign : isIdentChar c = false) : c.toNat < 128 := by
  refine Nat.lt_of_not_le fun high => ?_
  rw [ident_of_high high] at sign
  contradiction

section

variable {source text : List Char} {base : Nat} {p : Slice}

theorem slice_from_parts {p q : List Char} {i : Nat} (parts : text = p ++ q) (start : i = size p) :
    sliceFrom text i = .ok q :=
  slice_of_parts (by rw [parts, List.append_nil]) start (by rw [parts, size_append])

theorem slice_to_parts {front back : List Char} {i : Nat} (parts : text = front ++ back) (stop : i = size front) :
    slice text 0 i = .ok front :=
  slice_of_parts (p := []) (by rw [parts]; rfl) rfl (by rw [stop, size_nil, Nat.zero_add])

theorem head_is_iff {c : Char} : (text.head? == some c) = true ↔ ∃ rest, text = c :: rest := by
  rw [beq_iff_eq, List.head?_eq_some_iff]

theorem text_of_lies (lies : p.LiesIn 0 source) : p.item.text source = .ok p.text := by
  obtain ⟨front, piece, later, after, parts, rfl⟩ := lies
  rw [Slice.text_place]
  refine slice_of_parts parts (Nat.zero_add _) ?_
  exact congrArg (· + size piece) (Nat.zero_add _)

theorem trimmed_spec {start stop : Nat} (part : slice text start stop = .ok p.text) (place : p.start = base + start) :
    ∃ range, trimmed text start stop = .ok range ∧ range.shift base = p.trim.item ∧
      range.stop - range.start = p.trim.size := by
  obtain ⟨lead, _, leading⟩ := trim_start_split p.text
  have fits : size (trimStart p.text) ≤ size p.text := by
    have sum := congrArg size leading
    rw [size_append] at sum
    omega
  refine ⟨_, by rw [trimmed, part, ok_bind, minus_of_le fits, ok_bind]; rfl, ?_, Nat.add_sub_cancel_left _ _⟩
  unfold Item.shift Slice.item Slice.stop Slice.trim trim
  rw [place]
  simp only [Nat.add_assoc]

theorem push_trimmed_spec {start stop : Nat} (part : slice text start stop = .ok p.text) (place : p.start = base + start)
    (pieces : List Slice) :
    pushTrimmed base text start stop (pieces.map Slice.item) = .ok ((keepTrimmed p pieces).map Slice.item) := by
  obtain ⟨range, runs, bounds, length⟩ := trimmed_spec part place
  rw [pushTrimmed, runs, ok_bind, bounds, keepTrimmed]
  by_cases none : p.trim.size = 0
  · rw [if_neg (by omega), if_pos none]
    rfl
  · rw [if_pos (by omega), if_neg none]
    rfl

end

section

variable {g : Grammar} {text : List Char}

theorem contains_test {chars : List Char} (ascii : Ascii chars) : IsByteTest chars.contains :=
  byte_test_of_ascii fun c member => ascii c (List.contains_iff_mem.mp member)

theorem ident_of_untold {b : CodeByte} (untold : b.telling = false) : isIdentChar (charOf b.byte) = true := by
  rw [CodeByte.telling, Bool.or_eq_false_iff, Bool.not_eq_false'] at untold
  exact untold.2

theorem ident_of_untold_visit {v : Visit} (untold : v.telling = false) : isIdentChar v.char = true := by
  rw [Visit.telling, Bool.or_eq_false_iff, Bool.not_eq_false'] at untold
  exact untold.2

theorem not_sign_of_mem {chars : List Char} (signs : ∀ c ∈ chars, isIdentChar c = false) {c : Char}
    (ident : isIdentChar c = true) : chars.contains c = false := by
  refine Bool.eq_false_iff.mpr fun member => ?_
  rw [signs c (List.contains_iff_mem.mp member)] at ident
  contradiction

theorem separates_sight {separators : List Char} (ascii : Ascii separators) (v : Visit) :
    v.sight.separates separators = (v.depth == 0 && separators.contains v.char && !v.continues) := by
  have previous : (v.sight.previous.map fun p => continuationChars.contains (charOf p)) =
      v.previous.map continuationChars.contains := by
    unfold Visit.sight
    rw [Option.map_map]
    refine congrFun (congrArg Option.map (funext fun c => ?_)) v.previous
    exact test_last (contains_test (by decide)) c
  have separator : separators.contains (charOf v.sight.byte) = separators.contains v.char :=
    test_first (contains_test ascii) v.char
  have feed : (charOf v.sight.byte == '\n') = (v.char == '\n') := first_is (by decide) v.char
  unfold CodeByte.separates Visit.continues
  rw [previous, separator, feed]
  rfl

theorem separating_bytes (ascii : g.InAscii) {separators : List Char} (signs : ∀ c ∈ separators, isIdentChar c = false)
    (text : List Char) :
    ∃ seen, codeBytes g text = .ok seen ∧
      seen.filter (CodeByte.separates separators) = (cuts g text separators).map Visit.sight := by
  obtain ⟨seen, runs, told, _⟩ := code_bytes_spec ascii text
  have small : Ascii separators := fun c member => ascii_of_sign (signs c member)
  have narrow : ∀ b : CodeByte, b.separates separators = true → b.telling = true := by
    intro b separates
    cases telling : b.telling with
    | true => rfl
    | false =>
      rw [CodeByte.separates, not_sign_of_mem signs (ident_of_untold telling), Bool.and_false, Bool.false_and] at separates
      contradiction
  have narrow' : ∀ v : Visit, v.sight.separates separators = true → v.telling = true := by
    intro v separates
    cases telling : v.telling with
    | true => rfl
    | false =>
      rw [separates_sight small, not_sign_of_mem signs (ident_of_untold_visit telling), Bool.and_false, Bool.false_and]
        at separates
      contradiction
  have within : ∀ {α : Type} {p q : α → Bool} (list : List α), (∀ a, p a = true → q a = true) →
      list.filter p = (list.filter q).filter p := by
    intro α p q list implies
    rw [List.filter_filter]
    refine List.filter_congr fun a _ => ?_
    cases chosen : p a with
    | false => rfl
    | true => rw [implies a chosen]; rfl
  refine ⟨seen, runs, ?_⟩
  rw [within seen narrow, told, List.filter_map]
  refine congrArg _ ?_
  rw [← within (visits g text) (p := CodeByte.separates separators ∘ Visit.sight) narrow', cuts]
  exact List.filter_congr fun v _ => separates_sight small v

theorem cut_pieces (base : Nat) {done tail : List Char} {vs : List Visit} (pieces : List Slice)
    (parts : text = done ++ tail) (row : InRow done tail vs) (ones : ∀ v ∈ vs, v.char.utf8Size = 1) :
    (do
      let (start, items) ← (vs.map Visit.sight).foldlM (cutAt base text) (size done, pieces.map Slice.item)
      let items ← pushTrimmed base text start (size text) items
      return items.reverse) = Except.ok ((piecesFrom base (size text) pieces (size done) tail vs).map Slice.item) := by
  induction vs generalizing done tail pieces with
  | nil =>
    have room : size text - size done = size tail := by
      rw [parts, size_append]
      omega
    have whole : slice text (size done) (size text) = .ok (Slice.mk (base + size done) (size text - size done) tail).text := by
      rw [room, Slice.text, take_bytes_all]
      exact slice_from_parts parts rfl
    rw [piecesFrom, List.map_reverse]
    change (pushTrimmed base text (size done) (size text) (pieces.map Slice.item) >>= _) = _
    rw [push_trimmed_spec (p := ⟨base + size done, size text - size done, tail⟩) whole rfl]
    rfl
  | cons v rest ih =>
    obtain ⟨piece, split, offset, _, later⟩ := row
    have one := ones v List.mem_cons_self
    have room : v.offset - size done = size piece := by
      rw [offset, size_append]
      omega
    have part : slice text (size done) v.offset = .ok (Slice.mk (base + size done) (v.offset - size done) tail).text := by
      rw [room, Slice.text, split, take_bytes_append]
      exact slice_of_parts (by rw [parts, split, ← List.append_assoc]) rfl (by rw [offset, size_append])
    have next : v.offset + 1 = size (done ++ piece ++ [v.char]) := by
      rw [size_append, size_singleton, one, offset]
    have pushed := push_trimmed_spec (p := ⟨base + size done, v.offset - size done, tail⟩) part rfl pieces
    have step : cutAt base text (size done, pieces.map Slice.item) v.sight =
        .ok (v.offset + 1, (keepTrimmed ⟨base + size done, v.offset - size done, tail⟩ pieces).map Slice.item) := by
      rw [cutAt]
      change (pushTrimmed base text (size done) v.offset _ >>= _) = _
      rw [pushed]
      rfl
    rw [List.map_cons, List.foldlM_cons, step, ok_bind, piecesFrom, next]
    refine ih _ ?_ later fun u member => ones u (List.mem_cons_of_mem v member)
    rw [parts, split, List.append_assoc, List.append_assoc, List.singleton_append]

theorem split_spec (ascii : g.InAscii) {separators : List Char} (signs : ∀ c ∈ separators, isIdentChar c = false)
    (base : Nat) (text : List Char) :
    split g base text separators = .ok ((SnippetReview.split g base text separators).map Slice.item) := by
  obtain ⟨seen, runs, cutting⟩ := separating_bytes ascii signs text
  have row := (visits_in_row g text).filter fun v => v.depth == 0 && separators.contains v.char && !v.continues
  have pieces := cut_pieces base [] (List.nil_append text).symm row (by
    intro v member
    rw [List.mem_filter, Bool.and_eq_true, Bool.and_eq_true, List.contains_iff_mem] at member
    exact utf8_size_ascii (ascii_of_sign (signs v.char member.2.1.2)))
  rw [split, runs, ok_bind, cutting]
  exact pieces

end

section

variable {g : Grammar} {text : List Char}

theorem byte_of_first {bs : List UInt8} {i : Nat} {b : UInt8} (read : bs[i]? = some b) : ∃ more, bs.drop i = b :: more := by
  obtain ⟨inside, rfl⟩ := List.getElem?_eq_some_iff.mp read
  exact ⟨bs.drop (i + 1), List.drop_eq_getElem_cons inside⟩

theorem lookalike_bytes (token : List Char) (before after : Option Char) :
    isLookalike token ((before.map lastByte).map charOf) ((after.map firstByte).map charOf) =
      isLookalike token before after := by
  have preceded : ∀ chars, Ascii chars →
      ((before.map lastByte).map charOf).map chars.contains = before.map chars.contains := by
    intro chars ascii
    cases before with
    | none => rfl
    | some c => exact congrArg some (test_last (contains_test ascii) c)
  have followed : ∀ chars, Ascii chars →
      ((after.map firstByte).map charOf).map chars.contains = after.map chars.contains := by
    intro chars ascii
    cases after with
    | none => rfl
    | some c => exact congrArg some (test_first (contains_test ascii) c)
  unfold isLookalike
  simp only [preceded ['=', '!', '<', '>'] (by decide), preceded [':'] (by decide), preceded ['='] (by decide),
    followed ['=', '>', '~'] (by decide), followed [':'] (by decide)]

theorem find_token_spec (ascii : g.InAscii) {token : List Char} (nonempty : token ≠ [])
    (signs : ∀ c ∈ token, isIdentChar c = false) (text : List Char) :
    findToken g text token = .ok ((SnippetReview.findToken g text token).map (·.offset)) := by
  have small : Ascii token := fun c member => ascii_of_sign (signs c member)
  obtain ⟨t, ts, parts⟩ := List.exists_cons_of_ne_nil nonempty
  have sign : isIdentChar t = false := signs t (by rw [parts]; exact List.mem_cons_self)
  refine find_at_depth_zero_spec ascii (fun b untold read => ?_) (fun v member _ => ?_) fun v untold => ?_
  · -- A byte of a word is not the first byte of the token.
    obtain ⟨more, here⟩ := byte_of_first read
    have differ : (firstByte t == b.byte) = false := by
      refine beq_eq_false_iff_ne.mpr fun same => ?_
      have word := ident_of_untold untold
      rw [← same, test_first ident_char_test, sign] at word
      contradiction
    have absent : (bytes token).isPrefixOf (b.byte :: more) = false := by
      rw [parts, bytes_cons, encode_first, List.cons_append, List.isPrefixOf_cons_cons, differ, Bool.false_and]
    rw [tokenHere, bytes_from_of_drop here, ok_bind, absent]
    rfl
  · obtain ⟨done, stands⟩ := stands_of_visits member
    have rest : bytesFrom (bytes text) v.sight.pos = .ok (bytes (v.char :: v.rest)) := by
      change bytesFrom (bytes text) v.offset = _
      rw [stands.offset, stands.text]
      exact bytes_from done (v.char :: v.rest)
    have before : byteBefore (bytes text) v.sight.pos = .ok (v.before.map lastByte) := by
      change byteBefore (bytes text) v.offset = _
      rw [stands.offset, stands.before, stands.text]
      exact byte_before done (v.char :: v.rest)
    rw [tokenHere, rest, ok_bind, prefix_bytes small]
    by_cases here : token.isPrefixOf (v.char :: v.rest) = true
    · obtain ⟨more, whole⟩ := List.isPrefixOf_iff_prefix.mp here
      have behind : v.rest.drop (token.length - 1) = more := by
        rw [parts, List.cons_append, List.cons.injEq] at whole
        rw [parts, ← whole.2, List.length_cons, Nat.add_sub_cancel, List.drop_left]
      have after : (bytes text)[v.sight.pos + size token]? = more.head?.map firstByte := by
        change (bytes text)[v.offset + size token]? = _
        rw [stands.offset, ← size_append, stands.text, ← whole, ← List.append_assoc]
        exact get_first (done ++ token) more
      rw [if_pos here, here, Bool.true_and, before, ok_bind, after, lookalike_bytes, behind]
      rfl
    · rw [if_neg here, Bool.eq_false_iff.mpr here]
      rfl
  · have differ : (t == v.char) = false := by
      refine beq_eq_false_iff_ne.mpr fun same => ?_
      have word := ident_of_untold_visit untold
      rw [← same, sign] at word
      contradiction
    rw [parts, List.isPrefixOf_cons_cons, differ, Bool.false_and, Bool.false_and]

theorem find_some_m_of_ok {α β : Type} {f : α → Checked (Option β)} {h : α → Option β} {list : List α}
    (checked : ∀ a ∈ list, f a = .ok (h a)) : list.findSomeM? f = .ok (list.findSome? h) := by
  induction list with
  | nil => rfl
  | cons a rest ih =>
    rw [List.findSomeM?, checked a List.mem_cons_self, ok_bind, List.findSome?_cons,
      ih fun b member => checked b (List.mem_cons_of_mem a member)]
    cases h a <;> rfl

theorem token_parts {token : List Char} (nonempty : token ≠ []) {v : Visit}
    (found : SnippetReview.findToken g text token = some v) :
    ∃ done, text = done ++ token ++ v.rest.drop (token.length - 1) ∧ v.offset = size done := by
  obtain ⟨done, stands⟩ := stands_of_outside found
  have accepted := List.find?_some found
  rw [Bool.and_eq_true, Bool.and_eq_true] at accepted
  obtain ⟨more, whole⟩ := List.isPrefixOf_iff_prefix.mp accepted.2.1
  obtain ⟨t, ts, rfl⟩ := List.exists_cons_of_ne_nil nonempty
  rw [List.cons_append, List.cons.injEq] at whole
  refine ⟨done, ?_, stands.offset⟩
  rw [stands.text, ← whole.1, ← whole.2, List.length_cons, Nat.add_sub_cancel, List.drop_left, List.append_assoc,
    List.cons_append]

theorem signs_of_style {token : List Char} (signed : (BindingStyle.token token).isSigned = true) :
    token ≠ [] ∧ ∀ c ∈ token, isIdentChar c = false := by
  rw [BindingStyle.isSigned, Bool.and_eq_true, Bool.not_eq_true', List.isEmpty_eq_false_iff, List.all_eq_true] at signed
  exact ⟨signed.1, fun c member => by simpa using signed.2 c member⟩

variable (signed : g.Signed)

include signed

theorem bound_value_spec (text : List Char) : boundValue g text = .ok (boundText? g text) := by
  refine find_some_m_of_ok fun style member => ?_
  cases style with
  | token token =>
    obtain ⟨nonempty, signs⟩ := signs_of_style (signed.tokens _ member)
    rw [boundBy, find_token_spec signed.toInAscii nonempty signs, ok_bind]
    change _ = Except.ok ((SnippetReview.findToken g text token).map fun v => v.rest.drop (token.length - 1))
    cases found : SnippetReview.findToken g text token with
    | none => rfl
    | some v =>
      obtain ⟨done, parts, offset⟩ := token_parts nonempty found
      have value : sliceFrom text (v.offset + size token) = .ok (v.rest.drop (token.length - 1)) :=
        slice_from_parts parts (by rw [offset, size_append])
      rw [Option.map_some]
      simp only [value]
      rfl
  | receiver => rfl
  | setter => rfl
  | method => rfl

theorem awaits_body_spec (text : List Char) : awaitsBody g text = .ok (SnippetReview.awaitsBody g text) := by
  rw [awaitsBody, bound_value_spec signed, ok_bind, SnippetReview.awaitsBody]
  by_cases called : (g.callables.any (·.matchesIn (trimStart ((boundText? g text).getD text)))) = true
  · rw [if_pos called, called, Bool.true_and, find_token_spec signed.toInAscii (by decide) (by decide), ok_bind]
    cases SnippetReview.findToken g (trimStart ((boundText? g text).getD text)) [':'] <;> rfl
  · rw [if_neg called, Bool.eq_false_iff.mpr called]
    rfl

theorem merge_into_spec {source : List Char} {done : List Slice} {item : Slice} (lies : item.LiesIn 0 source)
    (others : ∀ p ∈ done, p.LiesIn 0 source) (behind : ∀ p ∈ done, p.stop ≤ item.start) :
    mergeInto g source (done.map Slice.item) item.item = .ok ((SnippetReview.mergeInto g done item).map Slice.item) := by
  rw [mergeInto, text_of_lies lies, ok_bind, bound_value_spec signed, ok_bind]
  cases done with
  | nil => rfl
  | cons last earlier =>
    have text := text_of_lies (others last List.mem_cons_self)
    have ordered := behind last List.mem_cons_self
    have bounds := lies.bounds
    have bounds' := (others last List.mem_cons_self).bounds
    have extended : (last.extendTo item.stop).item = ⟨last.start, item.stop⟩ := by
      have stop : last.start + (item.stop - last.start) = item.stop := by omega
      exact congrArg (Item.mk last.start) stop
    have joined : joins g source last.item (boundText? g item.text) =
        .ok ((boundText? g item.text).isNone || SnippetReview.awaitsBody g last.text) := by
      rw [joins, text, ok_bind, awaits_body_spec signed]
      cases (boundText? g item.text).isNone <;> rfl
    simp only [List.map_cons, joined, ok_bind]
    rw [SnippetReview.mergeInto]
    cases (boundText? g item.text).isNone || SnippetReview.awaitsBody g last.text with
    | true =>
      rw [if_pos rfl, if_pos rfl, List.map_cons, extended]
      rfl
    | false => rfl

theorem merge_continuations_spec {source text : List Char} {base limit : Nat} {items : List Slice}
    (within : ∀ p : Slice, p.OpensIn base text → p.LiesIn 0 source) (laid : Laid base text limit items.reverse) :
    mergeContinuations g source (items.map Slice.item) =
      .ok ((SnippetReview.mergeContinuations g items).map Slice.item) := by
  have run : ∀ (items done : List Slice) (limit : Nat), Laid base text limit done →
      (∀ s ∈ items, s.OpensIn base text ∧ Inked s.text ∧ limit ≤ s.start) →
      items.Pairwise (fun earlier later => earlier.stop ≤ later.start) →
      (items.map Slice.item).foldlM (mergeInto g source) (done.map Slice.item) =
        .ok ((items.foldl (SnippetReview.mergeInto g) done).map Slice.item) := by
    intro items
    induction items with
    | nil => exact fun _ _ _ _ _ => rfl
    | cons item rest ih =>
      intro done limit laid places ordered
      obtain ⟨opens, inked, above⟩ := places item List.mem_cons_self
      obtain ⟨first, others⟩ := List.pairwise_cons.mp ordered
      have step := merge_into_spec signed (within item opens) (fun p member => within p (laid.opens p member))
        fun p member => Nat.le_trans (laid.before p member) above
      rw [List.map_cons, List.foldlM_cons, step, ok_bind, List.foldl_cons]
      refine ih _ item.stop (merge_into_laid laid opens inked above) (fun s member => ?_) others
      obtain ⟨opens, inked, _⟩ := places s (List.mem_cons_of_mem item member)
      exact ⟨opens, inked, first s member⟩
  have ordered := laid.ordered
  rw [List.pairwise_reverse] at ordered
  have merged := run items [] 0 (.nil base 0 text) (fun s member =>
    ⟨laid.opens s (List.mem_reverse.mpr member), laid.inked s (List.mem_reverse.mpr member), Nat.zero_le _⟩) ordered
  rw [mergeContinuations]
  change (List.foldlM (mergeInto g source) ([].map Slice.item) (items.map Slice.item) >>= _) = _
  rw [merged, ok_bind, ← List.map_reverse]
  rfl

end

end Bytewise

end SnippetReview
