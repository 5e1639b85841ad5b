import SnippetReview.Proofs.Text.Utf8
import SnippetReview.Snippet.Segment

/- Reading a text by byte indices, where each access is checked: an index that holds no byte, a slice that is
   no range or cuts a character, a difference below zero and a loop without an end are faults. A text is a
   list of characters, so that it is valid UTF-8, and its bytes are those of their encodings. -/

set_option autoImplicit false

namespace SnippetReview.Bytewise

open Text

inductive Fault where
  | index
  | slice
  | subtraction
  | endless
deriving DecidableEq, Repr

abbrev Checked := Except Fault

theorem ok_bind {α β : Type} (a : α) (f : α → Checked β) : (Except.ok a >>= f) = f a := rfl

def byteAt (bs : List UInt8) (i : Nat) : Checked UInt8 :=
  match bs[i]? with
  | some b => .ok b
  | none => .error .index

-- The byte before an index, for callers that ask first whether there is one.
def byteBefore (bs : List UInt8) (i : Nat) : Checked (Option UInt8) :=
  if i = 0 then .ok none else some <$> byteAt bs (i - 1)

def bytesFrom (bs : List UInt8) (i : Nat) : Checked (List UInt8) :=
  if i ≤ bs.length then .ok (bs.drop i) else .error .slice

def bytesBetween (bs : List UInt8) (i j : Nat) : Checked (List UInt8) :=
  if i ≤ j ∧ j ≤ bs.length then .ok ((bs.drop i).take (j - i)) else .error .slice

def isBoundary (s : List Char) (i : Nat) : Bool := size (takeBytes i s) == i

def slice? (s : List Char) (i j : Nat) : Option (List Char) :=
  if i ≤ j && isBoundary s i && isBoundary s j then some (between i j s) else none

def slice (s : List Char) (i j : Nat) : Checked (List Char) :=
  match slice? s i j with
  | some part => .ok part
  | none => .error .slice

def minus (a b : Nat) : Checked Nat := if b ≤ a then .ok (a - b) else .error .subtraction

def loop {σ α : Type} (body : σ → Checked (σ ⊕ α)) : Nat → σ → Checked α
  | 0, _ => .error .endless
  | fuel + 1, state => do
    match ← body state with
    | .inl next => loop body fuel next
    | .inr result => .ok result

section

variable {σ α : Type} {body : σ → Checked (σ ⊕ α)} {state : σ}

theorem loop_next {next : σ} (step : body state = .ok (.inl next)) (fuel : Nat) :
    loop body (fuel + 1) state = loop body fuel next := by
  rw [loop, step, ok_bind]

theorem loop_done {result : α} (step : body state = .ok (.inr result)) (fuel : Nat) :
    loop body (fuel + 1) state = .ok result := by
  rw [loop, step, ok_bind]

end

-- The character with the number of a byte; tests of bytes are tests of it.
def charOf (b : UInt8) : Char := Char.ofNat b.toNat

def firstByte (c : Char) : UInt8 := (String.utf8EncodeChar c).headD 0

def lastByte (c : Char) : UInt8 := (String.utf8EncodeChar c).getLastD 0

theorem encode_ne_nil (c : Char) : String.utf8EncodeChar c ≠ [] := by
  intro none
  have length := String.length_utf8EncodeChar c
  have positive := Char.utf8Size_pos c
  rw [none, List.length_nil] at length
  omega

theorem encode_first (c : Char) : String.utf8EncodeChar c = firstByte c :: (String.utf8EncodeChar c).tail := by
  unfold firstByte
  cases shape : String.utf8EncodeChar c with
  | nil => exact absurd shape (encode_ne_nil c)
  | cons b more => rfl

theorem encode_last (c : Char) : String.utf8EncodeChar c = (String.utf8EncodeChar c).dropLast ++ [lastByte c] := by
  have last : lastByte c = (String.utf8EncodeChar c).getLast (encode_ne_nil c) := by
    rw [lastByte, List.getLastD_eq_getLast?, List.getLast?_eq_some_getLast (encode_ne_nil c), Option.getD_some]
  rw [last, List.dropLast_concat_getLast]

theorem to_nat_char_of (b : UInt8) : (charOf b).toNat = b.toNat := by
  have valid : b.toNat.isValidChar := .inl (Nat.lt_trans b.toNat_lt (by decide))
  rw [charOf, Char.ofNat, dif_pos valid]
  rfl

theorem char_of_ascii {c : Char} (ascii : c.toNat < 128) : charOf (UInt8.ofNat c.toNat) = c := by
  refine Char.toNat_inj.mp ?_
  rw [to_nat_char_of, UInt8.toNat_ofNat_of_lt' (Nat.lt_trans ascii (by decide))]

def IsByteTest {α : Type} (p : Char → α) : Prop := ∀ c d : Char, 128 ≤ c.toNat → 128 ≤ d.toNat → p c = p d

section

variable {α : Type} {p : Char → α}

-- A test of a byte that stands for a character is the test of the character.
theorem test_of_mem_encode (test : IsByteTest p) {c : Char} {b : UInt8} (member : b ∈ String.utf8EncodeChar c) :
    p (charOf b) = p c := by
  by_cases ascii : c.toNat < 128
  · rw [encode_ascii ascii, List.mem_singleton] at member
    rw [member, char_of_ascii ascii]
  · have high := encode_high (Nat.le_of_not_lt ascii) b member
    exact test (charOf b) c (by rwa [to_nat_char_of]) (Nat.le_of_not_lt ascii)

theorem test_first (test : IsByteTest p) (c : Char) : p (charOf (firstByte c)) = p c := by
  refine test_of_mem_encode test ?_
  rw [encode_first]
  exact List.mem_cons_self

theorem test_last (test : IsByteTest p) (c : Char) : p (charOf (lastByte c)) = p c := by
  refine test_of_mem_encode test ?_
  rw [encode_last]
  exact List.mem_append_right _ List.mem_cons_self

end

theorem index_lt_of_split {s p q : List Char} {c : Char} (split : s = p ++ c :: q) : size p < (bytes s).length := by
  have positive := Char.utf8Size_pos c
  rw [length_bytes, split, size_append, size_cons]
  omega

theorem byte_at_first {s p q : List Char} {c : Char} (split : s = p ++ c :: q) :
    byteAt (bytes s) (size p) = .ok (firstByte c) := by
  have found : (bytes s)[size p]? = some (firstByte c) := by
    rw [split, bytes_append, List.getElem?_append_right (Nat.le_of_eq (length_bytes p)), length_bytes, Nat.sub_self,
      bytes_cons, encode_first]
    rfl
  rw [byteAt, found]

theorem byte_at_last (pre : List Char) (c : Char) (post : List Char) :
    byteAt (bytes (pre ++ c :: post)) (size pre + c.utf8Size - 1) = .ok (lastByte c) := by
  have positive := Char.utf8Size_pos c
  have length : (String.utf8EncodeChar c).dropLast.length = c.utf8Size - 1 := by
    rw [List.length_dropLast, String.length_utf8EncodeChar]
  have found : (bytes (pre ++ c :: post))[size pre + c.utf8Size - 1]? = some (lastByte c) := by
    rw [bytes_append, List.getElem?_append_right (by rw [length_bytes]; omega), length_bytes, bytes_cons, encode_last,
      List.append_assoc, List.getElem?_append_right (by omega), length]
    rw [show size pre + c.utf8Size - 1 - size pre - (c.utf8Size - 1) = 0 by omega]
    rfl
  rw [byteAt, found]

theorem byte_before (pre post : List Char) :
    byteBefore (bytes (pre ++ post)) (size pre) = .ok (pre.getLast?.map lastByte) := by
  unfold byteBefore
  rcases List.eq_nil_or_concat pre with rfl | ⟨front, c, rfl⟩
  · rfl
  · have positive := Char.utf8Size_pos c
    have found := byte_at_last front c post
    rw [List.concat_eq_append, size_append, size_singleton, if_neg (by omega), List.append_assoc, List.singleton_append,
      found, List.getLast?_append, List.getLast?_singleton]
    rfl

theorem drop_of_split {s p q : List Char} (split : s = p ++ q) : (bytes s).drop (size p) = bytes q := by
  rw [split, bytes_append, ← length_bytes, List.drop_left]

theorem bytes_from (pre post : List Char) : bytesFrom (bytes (pre ++ post)) (size pre) = .ok (bytes post) := by
  rw [bytesFrom, if_pos (by rw [length_bytes, size_append]; omega), drop_of_split rfl]

theorem get_first (pre post : List Char) : (bytes (pre ++ post))[size pre]? = post.head?.map firstByte := by
  rw [bytes_append, List.getElem?_append_right (Nat.le_of_eq (length_bytes pre)), length_bytes, Nat.sub_self]
  cases post with
  | nil => rfl
  | cons c rest =>
    rw [bytes_cons, encode_first]
    rfl

theorem bytes_between (front mid post : List Char) :
    bytesBetween (bytes (front ++ mid ++ post)) (size front) (size front + size mid) = .ok (bytes mid) := by
  have inside : size front + size mid ≤ (bytes (front ++ mid ++ post)).length := by
    rw [length_bytes, size_append, size_append]
    exact Nat.le_add_right _ _
  have part : ((bytes (front ++ mid ++ post)).drop (size front)).take (size mid) = bytes mid := by
    rw [drop_of_split (List.append_assoc front mid post), bytes_append, ← length_bytes mid, List.take_left]
  rw [bytesBetween, if_pos ⟨Nat.le_add_right _ _, inside⟩, Nat.add_sub_cancel_left, part]

theorem boundary_size (pre post : List Char) : isBoundary (pre ++ post) (size pre) = true := by
  rw [isBoundary, take_bytes_append, beq_self_eq_true]

theorem slice_parts {s p m q : List Char} {i j : Nat} (split : s = p ++ m ++ q) (start : i = size p)
    (stop : j = size p + size m) : slice? s i j = some m := by
  have left : isBoundary s i = true := by
    rw [split, start, List.append_assoc]
    exact boundary_size p (m ++ q)
  have right : isBoundary s j = true := by
    rw [split, stop, ← size_append]
    exact boundary_size (p ++ m) q
  have part : between i j s = m := by
    rw [between, start, stop, Nat.add_sub_cancel_left, split, List.append_assoc, drop_bytes_append, take_bytes_append]
  have order : i ≤ j := by omega
  rw [slice?, left, right, decide_eq_true order, part]
  rfl

theorem slice_of_parts {s p m q : List Char} {i j : Nat} (split : s = p ++ m ++ q) (start : i = size p)
    (stop : j = size p + size m) : slice s i j = .ok m := by
  rw [slice, slice_parts split start stop]

-- The second offset is inside the character.
example : slice ['é', 'a'] 0 1 = .error .slice := rfl

theorem minus_of_le {a b : Nat} (le : b ≤ a) : minus a b = .ok (a - b) := if_pos le

theorem minus_of_parts {s p q : List Char} (parts : s = p ++ q) : minus (size s) (size q) = .ok (size p) := by
  rw [parts, size_append, minus_of_le (Nat.le_add_left _ _), Nat.add_sub_cancel]

def Ascii (s : List Char) : Prop := ∀ c ∈ s, c.toNat < 128

instance (s : List Char) : Decidable (Ascii s) := inferInstanceAs (Decidable (∀ c ∈ s, c.toNat < 128))

theorem size_of_ascii {s : List Char} (ascii : Ascii s) : size s = s.length := by
  induction s with
  | nil => rfl
  | cons c rest ih =>
    rw [size_cons, utf8_size_ascii (ascii c List.mem_cons_self), ih fun d member => ascii d (List.mem_cons_of_mem c member),
      List.length_cons, Nat.add_comm]

theorem byte_test_of_ascii {p : Char → Bool} (ascii : ∀ c, p c = true → c.toNat < 128) : IsByteTest p := by
  have other : ∀ c : Char, 128 ≤ c.toNat → p c = false := by
    intro c high
    refine Bool.eq_false_iff.mpr fun holds => ?_
    exact absurd (ascii c holds) (Nat.not_lt.mpr high)
  intro c d highC highD
  rw [other c highC, other d highD]

theorem byte_test_beq {d : Char} (ascii : d.toNat < 128) : IsByteTest fun c => c == d :=
  byte_test_of_ascii fun c same => by rwa [beq_iff_eq.mp same]

theorem byte_test_or {p q : Char → Bool} (left : IsByteTest p) (right : IsByteTest q) : IsByteTest fun c => p c || q c := by
  intro c d highC highD
  simp only [left c d highC highD, right c d highC highD]

theorem first_is {d : Char} (ascii : d.toNat < 128) (c : Char) : (charOf (firstByte c) == d) = (c == d) :=
  test_first (byte_test_beq ascii) c

theorem last_is {d : Char} (ascii : d.toNat < 128) (c : Char) : (charOf (lastByte c) == d) = (c == d) :=
  test_last (byte_test_beq ascii) c

theorem high_fails {p : Char → Bool} (ascii : ∀ c, p c = true → c.toNat < 128) {b : UInt8} (high : 128 ≤ b.toNat) :
    p (charOf b) = false := by
  refine Bool.eq_false_iff.mpr fun holds => ?_
  have small := ascii (charOf b) holds
  rw [to_nat_char_of] at small
  omega

theorem high_is_not {d : Char} (ascii : d.toNat < 128) {b : UInt8} (high : 128 ≤ b.toNat) : (charOf b == d) = false :=
  high_fails (p := (· == d)) (fun c same => by rwa [beq_iff_eq.mp same]) high

theorem ascii_of_alpha {c : Char} (letter : c.isAlpha = true) : c.toNat < 128 :=
  ascii_of_alphanum (by rw [Char.isAlphanum, letter, Bool.true_or])

theorem is_alpha_test : IsByteTest Char.isAlpha := byte_test_of_ascii fun _ => ascii_of_alpha

theorem ident_of_high {c : Char} (high : 128 ≤ c.toNat) : isIdentChar c = true := by
  rw [isIdentChar, decide_eq_true high, Bool.or_true]

theorem ident_char_test : IsByteTest isIdentChar := by
  intro c d highC highD
  rw [ident_of_high highC, ident_of_high highD]

theorem ascii_blank_test : IsByteTest isAsciiBlank := by
  refine byte_test_of_ascii fun c blank => ?_
  unfold isAsciiBlank at blank
  simp only [Bool.or_eq_true, beq_iff_eq] at blank
  rcases blank with (((rfl | rfl) | rfl) | rfl) | rfl <;> decide

-- No other character begins with the byte of one in ASCII.
theorem first_byte_beq {c d : Char} (ascii : c.toNat < 128) : (firstByte c == firstByte d) = (c == d) := by
  by_cases same : c = d
  · rw [same, beq_self_eq_true, beq_self_eq_true]
  · rw [beq_eq_false_iff_ne.mpr same, beq_eq_false_iff_ne]
    intro equal
    have other := first_is ascii d
    rw [← equal, first_is ascii c, beq_self_eq_true] at other
    exact same (beq_iff_eq.mp other.symm).symm

theorem prefix_bytes {marker : List Char} (ascii : Ascii marker) (s : List Char) :
    (bytes marker).isPrefixOf (bytes s) = marker.isPrefixOf s := by
  induction marker generalizing s with
  | nil => simp
  | cons c rest ih =>
    have asciiC := ascii c List.mem_cons_self
    have single : String.utf8EncodeChar c = [firstByte c] := by
      rw [firstByte, encode_ascii asciiC]
      rfl
    rw [bytes_cons, single, List.singleton_append]
    cases s with
    | nil => rfl
    | cons d later =>
      rw [bytes_cons, encode_first d, List.cons_append, List.isPrefixOf_cons_cons, List.isPrefixOf_cons_cons,
        first_byte_beq asciiC]
      by_cases same : c = d
      · rw [← same, single, List.tail_cons, List.nil_append, ih fun e member => ascii e (List.mem_cons_of_mem c member)]
      · rw [beq_eq_false_iff_ne.mpr same, Bool.false_and, Bool.false_and]

theorem not_prefix_high {marker : List Char} (ascii : Ascii marker) (nonempty : marker ≠ []) {b : UInt8}
    (high : 128 ≤ b.toNat) (more : List UInt8) : (bytes marker).isPrefixOf (b :: more) = false := by
  obtain ⟨c, rest, rfl⟩ := List.exists_cons_of_ne_nil nonempty
  have small : (firstByte c).toNat < 128 := by
    have asciiC := ascii c List.mem_cons_self
    rw [firstByte, encode_ascii asciiC, List.headD_cons, UInt8.toNat_ofNat_of_lt' (Nat.lt_trans asciiC (by decide))]
    exact asciiC
  have differ : firstByte c ≠ b := fun same => by rw [same] at small; omega
  rw [bytes_cons, encode_first, List.cons_append, List.isPrefixOf_cons_cons, beq_eq_false_iff_ne.mpr differ, Bool.false_and]

section

variable {σ α : Type} {body : σ → Checked (σ ⊕ α)} {s pre post : List Char} {c : Char}

theorem interior (split : s = pre ++ c :: post) (high : 128 ≤ c.toNat) {k : Nat} (inside : k < c.utf8Size) :
    ∃ b more, (bytes s).drop (size pre + k) = b :: more ∧ 128 ≤ b.toNat := by
  have enough : k < (String.utf8EncodeChar c).length := by rwa [String.length_utf8EncodeChar]
  refine ⟨(String.utf8EncodeChar c)[k], (String.utf8EncodeChar c).drop (k + 1) ++ bytes post, ?_,
    encode_high high _ (List.getElem_mem enough)⟩
  rw [split, bytes_append, bytes_cons, ← length_bytes, List.drop_length_add_append,
    List.drop_append_of_le_length (Nat.le_of_lt enough), List.drop_eq_getElem_cons enough]
  rfl

-- The loop looks at no byte beyond ASCII that comes before an index: it moves on to the next byte.
def SkipsHigh (body : σ → Checked (σ ⊕ α)) (stateAt : Nat → σ) (bs : List UInt8) (stop : Nat) : Prop :=
  ∀ j b more, bs.drop j = b :: more → 128 ≤ b.toNat → j < stop → body (stateAt j) = .ok (.inl (stateAt (j + 1)))

theorem loop_high_from (stateAt : Nat → σ) (split : s = pre ++ c :: post) (high : 128 ≤ c.toNat)
    (skips : SkipsHigh body stateAt (bytes s) (size pre + c.utf8Size))
    (fuel : Nat) {k : Nat} (inside : k ≤ c.utf8Size) :
    loop body (fuel + (c.utf8Size - k)) (stateAt (size pre + k)) =
      loop body fuel (stateAt (size pre + c.utf8Size)) := by
  generalize left : c.utf8Size - k = n
  induction n generalizing k with
  | zero => rw [Nat.add_zero, show k = c.utf8Size by omega]
  | succ n ih =>
    obtain ⟨b, more, here, highB⟩ := interior split high (show k < c.utf8Size by omega)
    rw [← Nat.add_assoc, loop_next (skips _ b more here highB (by omega)), Nat.add_assoc]
    exact ih (by omega) (by omega)

theorem loop_rest (stateAt : Nat → σ) (split : s = pre ++ c :: post)
    (skips : SkipsHigh body stateAt (bytes s) (size pre + c.utf8Size))
    {fuel : Nat} (enough : c.utf8Size ≤ fuel + 1) :
    loop body fuel (stateAt (size pre + 1)) = loop body (fuel + 1 - c.utf8Size) (stateAt (size (pre ++ [c]))) := by
  rw [size_append, size_singleton]
  by_cases ascii : c.toNat < 128
  · rw [utf8_size_ascii ascii, Nat.add_sub_cancel]
  · have positive := Char.utf8Size_pos c
    have moved := loop_high_from stateAt split (Nat.le_of_not_lt ascii) skips (fuel + 1 - c.utf8Size) positive
    rwa [show fuel + 1 - c.utf8Size + (c.utf8Size - 1) = fuel by omega] at moved

theorem loop_char (stateAt : Nat → σ) (split : s = pre ++ c :: post)
    (first : body (stateAt (size pre)) = .ok (.inl (stateAt (size pre + 1))))
    (skips : SkipsHigh body stateAt (bytes s) (size pre + c.utf8Size))
    {fuel : Nat} (enough : c.utf8Size ≤ fuel + 1) :
    loop body (fuel + 1) (stateAt (size pre)) = loop body (fuel + 1 - c.utf8Size) (stateAt (size (pre ++ [c]))) := by
  rw [loop_next first]
  exact loop_rest stateAt split skips enough

end

theorem byte_at_of_drop {bs : List UInt8} {j : Nat} {b : UInt8} {more : List UInt8} (here : bs.drop j = b :: more) :
    byteAt bs j = .ok b := by
  have found : bs[j]? = some b := by rw [← List.head?_drop, here, List.head?_cons]
  rw [byteAt, found]

theorem lt_length_of_drop {bs : List UInt8} {j : Nat} {b : UInt8} {more : List UInt8} (here : bs.drop j = b :: more) :
    j < bs.length := by
  refine Nat.lt_of_not_le fun beyond => ?_
  rw [List.drop_eq_nil_of_le beyond] at here
  contradiction

theorem bytes_from_of_drop {bs : List UInt8} {j : Nat} {b : UInt8} {more : List UInt8} (here : bs.drop j = b :: more) :
    bytesFrom bs j = .ok (b :: more) := by
  rw [bytesFrom, if_pos (Nat.le_of_lt (lt_length_of_drop here)), here]

end SnippetReview.Bytewise
