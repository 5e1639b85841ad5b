import Mathlib.Tactic.SplitIfs
import SnippetReview.Proofs.Bytewise.Access
import SnippetReview.Proofs.Lexing.Literal
import SnippetReview.Proofs.Lexing.Partition

set_option autoImplicit false

namespace SnippetReview.Bytewise

open Text

def newlineFrom (bs : List UInt8) (i : Nat) : Checked (Option Nat) := do
  let rest ← bytesFrom bs i
  return (rest.findIdx? fun b => charOf b == '\n').map (i + ·)

def blockStep (bs opening closing : List UInt8) (nested : Bool) : Nat × Nat → Checked ((Nat × Nat) ⊕ Nat)
  | (j, depth) =>
    if j < bs.length then do
      let rest ← bytesFrom bs j
      if closing.isPrefixOf rest then do
        let depth ← minus depth 1
        if depth = 0 then return .inr (j + closing.length) else return .inl (j + closing.length, depth)
      else if nested && opening.isPrefixOf rest then return .inl (j + opening.length, depth + 1)
      else return .inl (j + 1, depth)
    else return .inr bs.length

def blockEnd (bs opening closing : List UInt8) (nested : Bool) (i : Nat) : Checked Nat :=
  loop (blockStep bs opening closing nested) (bs.length + 1) (i, 1)

def escapeStep (bs : List UInt8) (floor : Nat) : Nat × Nat → Checked ((Nat × Nat) ⊕ Bool)
  | (j, count) =>
    if floor < j then do
      let b ← byteAt bs (← minus j 1)
      if charOf b == '\\' then return .inl (j - 1, count + 1) else return .inr (count % 2 == 1)
    else return .inr (count % 2 == 1)

def isEscaped (bs : List UInt8) (i floor : Nat) : Checked Bool := loop (escapeStep bs floor) (bs.length + 1) (i, 0)

-- A byte that does not close the literal ends it only as the line feed of a literal of one line.
def passByte (bs : List UInt8) (style : QuoteStyle) (j : Nat) : Checked (Nat ⊕ (Nat × Bool)) :=
  if style.multiline then .ok (.inl (j + 1))
  else do
    let b ← byteAt bs j
    if charOf b == '\n' then return .inr (j, false) else return .inl (j + 1)

def stringStep (bs : List UInt8) (style : QuoteStyle) (start j : Nat) : Checked (Nat ⊕ (Nat × Bool)) :=
  let closing := bytes style.closing
  if j < bs.length then do
    let rest ← bytesFrom bs j
    if closing.isPrefixOf rest then
      match style.escape with
      | .backslash =>
        if ← isEscaped bs j start then passByte bs style j else return .inr (j + closing.length, true)
      | .doubled => do
        let beyond ← bytesFrom bs (j + closing.length)
        if closing.isPrefixOf beyond then return .inl (j + closing.length * 2)
        else return .inr (j + closing.length, true)
      | .never => return .inr (j + closing.length, true)
    else passByte bs style j
  else return .inr (bs.length, false)

def stringEnd (bs : List UInt8) (style : QuoteStyle) (start : Nat) : Checked (Nat × Bool) :=
  loop (stringStep bs style start) (bs.length + 1) start

def flagStep (bs : List UInt8) (j : Nat) : Checked (Nat ⊕ Nat) :=
  if j < bs.length then do
    let b ← byteAt bs j
    if (charOf b).isAlpha then return .inl (j + 1) else return .inr j
  else return .inr j

def regexStep (bs : List UInt8) (start : Nat) : Nat × Bool → Checked ((Nat × Bool) ⊕ Option Nat)
  | (j, inClass) =>
    if j < bs.length then do
      let c := charOf (← byteAt bs j)
      if c == '\n' then return .inr none
      else if c == '\\' then return .inl (j + 2, inClass)
      else if c == '[' then return .inl (j + 1, true)
      else if c == ']' then return .inl (j + 1, false)
      else if c == '/' && !inClass then
        if j = start + 1 then return .inr none
        else do
          let stop ← loop (flagStep bs) (bs.length + 1) (j + 1)
          return .inr (some stop)
      else return .inl (j + 1, inClass)
    else return .inr none

def regexEnd (bs : List UInt8) (start : Nat) : Checked (Option Nat) :=
  loop (regexStep bs start) (bs.length + 1) (start + 1, false)

theorem newline_from_spec (pre rest : List Char) :
    ∃ found, newlineFrom (bytes (pre ++ rest)) (size pre) = .ok found ∧
      found.getD (size (pre ++ rest)) = size pre + size (rest.take (Literal.lineLength 0 rest)) := by
  have feed : (bytes rest).findIdx? (fun b => charOf b == '\n') =
      if '\n' ∈ rest then some (size (rest.takeWhile (· != '\n'))) else none := by
    induction rest with
    | nil => rfl
    | cons c rest ih =>
      rw [bytes_cons, List.findIdx?_append, ih, String.length_utf8EncodeChar]
      by_cases isFeed : c = '\n'
      · rw [isFeed]
        rfl
      · have none : (String.utf8EncodeChar c).findIdx? (fun b => charOf b == '\n') = none := by
          rw [List.findIdx?_eq_none_iff]
          intro b member
          rw [test_of_mem_encode (byte_test_beq (by decide)) member, beq_eq_false_iff_ne]
          exact isFeed
        rw [none, Option.none_or, List.takeWhile_cons_of_pos (by simpa using isFeed), size_cons]
        by_cases member : '\n' ∈ rest
        · rw [if_pos member, if_pos (List.mem_cons_of_mem c member), Option.map_some, Nat.add_comm]
        · have absent : '\n' ∉ c :: rest := by
            rw [List.mem_cons, not_or]
            exact ⟨fun same => isFeed same.symm, member⟩
          rw [if_neg member, if_neg absent]
          rfl
  refine ⟨_, by rw [newlineFrom, bytes_from, ok_bind, feed]; rfl, ?_⟩
  rw [line_length_eq, Nat.zero_add, ← List.prefix_iff_eq_take.mp (List.takeWhile_prefix (· != '\n'))]
  by_cases member : '\n' ∈ rest
  · rw [if_pos member]
    rfl
  · have all : (rest ++ []).takeWhile (· != '\n') = rest ++ [].takeWhile (· != '\n') :=
      List.takeWhile_append_of_pos fun c inside => bne_iff_ne.mpr fun same => member (same ▸ inside)
    rw [List.append_nil, List.takeWhile_nil, List.append_nil] at all
    rw [if_neg member, all, size_append]
    rfl

-- Characters that belong to a delimiter are passed over.
theorem block_length_skip (opening closing : List Char) (nested : Bool) (depth count : Nat) (skipped rest : List Char) :
    Literal.blockLength opening closing nested depth skipped.length count (skipped ++ rest) =
      Literal.blockLength opening closing nested depth 0 (count + skipped.length) rest := by
  induction skipped generalizing count with
  | nil => rfl
  | cons c later ih =>
    rw [List.cons_append, List.length_cons, Literal.blockLength, ih, Nat.add_assoc, Nat.add_comm 1]

theorem block_length_behind (opening closing : List Char) (nested : Bool) (depth count : Nat) {marker later tail : List Char}
    {c : Char} (nonempty : marker ≠ []) (whole : marker ++ later = c :: tail) :
    Literal.blockLength opening closing nested depth (marker.length - 1) (count + 1) tail =
      Literal.blockLength opening closing nested depth 0 (count + marker.length) later := by
  obtain ⟨d, others, rfl⟩ := List.exists_cons_of_ne_nil nonempty
  rw [List.cons_append] at whole
  obtain ⟨rfl, rfl⟩ := List.cons_eq_cons.mp whole
  rw [List.length_cons, Nat.add_sub_cancel, block_length_skip, Nat.add_assoc, Nat.add_comm 1]

section

variable {s pre : List Char} {opening closing : List Char} (nested : Bool)

theorem block_step_end {j : Nat} (beyond : (bytes s).length ≤ j) (depth : Nat) :
    blockStep (bytes s) (bytes opening) (bytes closing) nested (j, depth) = .ok (.inr (size s)) := by
  rw [blockStep, if_neg (Nat.not_lt.mpr beyond), length_bytes]
  rfl

variable (asciiOpening : Ascii opening) (asciiClosing : Ascii closing)

include asciiOpening asciiClosing

theorem block_step {taken tail : List Char} {c : Char} (depth : Nat) (split : s = pre ++ taken ++ c :: tail) :
    blockStep (bytes s) (bytes opening) (bytes closing) nested (size (pre ++ taken), depth) =
      if closing.isPrefixOf (c :: tail) then do
        let depth ← minus depth 1
        if depth = 0 then return .inr (size (pre ++ taken) + size closing)
        else return .inl (size (pre ++ taken) + size closing, depth)
      else if nested && opening.isPrefixOf (c :: tail) then .ok (.inl (size (pre ++ taken) + size opening, depth + 1))
      else .ok (.inl (size (pre ++ taken) + 1, depth)) := by
  rw [blockStep, if_pos (index_lt_of_split split), split, bytes_from, ok_bind, prefix_bytes asciiClosing,
    prefix_bytes asciiOpening, length_bytes, length_bytes]
  rfl

variable (opens : opening ≠ []) (closes : closing ≠ [])

include opens closes

theorem block_skips (depth stop : Nat) :
    SkipsHigh (blockStep (bytes s) (bytes opening) (bytes closing) nested) (fun j => (j, depth)) (bytes s) stop := by
  intro j b more here high _
  rw [blockStep, if_pos (lt_length_of_drop here), bytes_from_of_drop here, ok_bind,
    not_prefix_high asciiClosing closes high, not_prefix_high asciiOpening opens high, Bool.and_false]
  rfl

theorem block_end_spec (taken rest : List Char) (depth fuel : Nat) (split : s = pre ++ taken ++ rest)
    (enough : size rest < fuel) (positive : 0 < depth) :
    loop (blockStep (bytes s) (bytes opening) (bytes closing) nested) fuel (size (pre ++ taken), depth) =
      .ok (size pre + size ((taken ++ rest).take
        (Literal.blockLength opening closing nested depth 0 taken.length rest))) := by
  induction fuel using Nat.strongRecOn generalizing taken rest depth with
  | ind fuel ih =>
  obtain ⟨fuel, rfl⟩ := Nat.exists_eq_add_one.mpr (Nat.zero_lt_of_lt enough)
  cases rest with
  | nil =>
    rw [List.append_nil] at split
    have beyond : (bytes s).length ≤ size (pre ++ taken) := Nat.le_of_eq (by rw [length_bytes, split])
    rw [loop_done (block_step_end nested beyond depth), Literal.blockLength, List.append_nil, List.take_length, split, size_append]
  | cons c tail =>
    have step := block_step nested asciiOpening asciiClosing depth split
    -- A delimiter is jumped over; the reader of characters skips as many.
    have jump : ∀ {marker : List Char} (depth : Nat), marker ≠ [] → marker.isPrefixOf (c :: tail) = true → 0 < depth →
        loop (blockStep (bytes s) (bytes opening) (bytes closing) nested) fuel (size (pre ++ taken) + size marker, depth) =
          .ok (size pre + size ((taken ++ c :: tail).take
            (Literal.blockLength opening closing nested depth (marker.length - 1) (taken.length + 1) tail))) := by
      intro marker depth nonempty here positive
      obtain ⟨later, whole⟩ := List.isPrefixOf_iff_prefix.mp here
      have smaller : size later < size (c :: tail) := by
        have some : size marker ≠ 0 := fun none => nonempty (size_eq_zero_iff.mp none)
        rw [← whole, size_append]
        omega
      have next := ih fuel (Nat.lt_succ_self fuel) (taken ++ marker) later depth (by rw [split, ← whole]; simp) (by omega)
        positive
      rw [List.append_assoc taken, whole, List.length_append, ← List.append_assoc, size_append (pre ++ taken)] at next
      rw [next, block_length_behind _ _ _ _ _ nonempty whole]
    by_cases closesHere : closing.isPrefixOf (c :: tail) = true
    · rw [if_pos closesHere, minus_of_le positive, ok_bind] at step
      rw [Literal.blockLength, if_pos closesHere]
      by_cases last : depth ≤ 1
      · rw [if_pos (by omega)] at step
        obtain ⟨later, whole⟩ := List.isPrefixOf_iff_prefix.mp closesHere
        rw [loop_done step, if_pos last, ← whole, ← List.append_assoc, ← List.length_append, List.take_left, size_append,
          size_append, Nat.add_assoc]
      · rw [if_neg (by omega)] at step
        rw [loop_next step, if_neg last]
        exact jump (depth - 1) closes closesHere (by omega)
    rw [if_neg closesHere] at step
    rw [Literal.blockLength, if_neg closesHere]
    by_cases opensHere : (nested && opening.isPrefixOf (c :: tail)) = true
    · rw [if_pos opensHere] at step
      rw [loop_next step, if_pos opensHere]
      exact jump (depth + 1) opens (Bool.and_eq_true_iff.mp opensHere).2 (by omega)
    rw [if_neg opensHere] at step
    rw [size_cons] at enough
    have one := Char.utf8Size_pos c
    have skips := block_skips (s := s) nested asciiOpening asciiClosing opens closes depth
    have next := ih (fuel + 1 - c.utf8Size) (by omega) (taken ++ [c]) tail depth (by rw [split]; simp) (by omega) positive
    rw [List.append_assoc, List.singleton_append, List.length_append, List.length_singleton, ← List.append_assoc] at next
    rw [if_neg opensHere, loop_char (fun j => (j, depth)) split step (skips _) (by omega), next]

end

def endsEscaping (s : List Char) : Bool := (s.reverse.takeWhile (· == '\\')).length % 2 == 1

theorem ends_escaping_concat (s : List Char) (c : Char) :
    endsEscaping (s ++ [c]) = (c == '\\' && !endsEscaping s) := by
  unfold endsEscaping
  rw [List.reverse_append, List.reverse_singleton, List.singleton_append]
  by_cases escapes : c = '\\'
  · rw [escapes, List.takeWhile_cons_of_pos rfl, List.length_cons]
    generalize (s.reverse.takeWhile (· == '\\')).length = n
    rcases Nat.mod_two_eq_zero_or_one n with even | odd
    · simp [Nat.add_mod, even]
    · simp [Nat.add_mod, odd]
  · rw [List.takeWhile_cons_of_neg (by simpa using escapes), beq_eq_false_iff_ne.mpr escapes]
    rfl

theorem count_backslashes {s front : List Char} (back rest : List Char) (count fuel : Nat)
    (split : s = front ++ back.reverse ++ rest) (enough : size back < fuel) :
    loop (escapeStep (bytes s) (size front)) fuel (size (front ++ back.reverse), count) =
      .ok ((count + (back.takeWhile (· == '\\')).length) % 2 == 1) := by
  induction back generalizing count fuel rest with
  | nil =>
    obtain ⟨fuel, rfl⟩ := Nat.exists_eq_add_one.mpr (Nat.zero_lt_of_lt enough)
    have finished : escapeStep (bytes s) (size front) (size (front ++ [].reverse), count) = .ok (.inr (count % 2 == 1)) := by
      rw [escapeStep, List.reverse_nil, List.append_nil, if_neg (Nat.lt_irrefl _)]
      rfl
    exact loop_done finished fuel
  | cons c back ih =>
    obtain ⟨fuel, rfl⟩ := Nat.exists_eq_add_one.mpr (Nat.zero_lt_of_lt enough)
    have positive := Char.utf8Size_pos c
    have sizes : size (front ++ (c :: back).reverse) = size (front ++ back.reverse) + c.utf8Size := by simp [Nat.add_assoc]
    have whole : s = (front ++ back.reverse) ++ c :: rest := by rw [split]; simp
    have last := byte_at_last (front ++ back.reverse) c rest
    rw [← whole] at last
    have order : size front < size (front ++ (c :: back).reverse) := by
      rw [sizes, size_append]
      omega
    have step : escapeStep (bytes s) (size front) (size (front ++ (c :: back).reverse), count) =
        if c == '\\' then .ok (.inl (size (front ++ (c :: back).reverse) - 1, count + 1))
        else .ok (.inr (count % 2 == 1)) := by
      rw [escapeStep, if_pos order, minus_of_le (by omega), ok_bind, sizes, last, ok_bind, last_is (by decide)]
      rfl
    by_cases escapes : c = '\\'
    · rw [escapes, if_pos (beq_self_eq_true _)] at step
      have one : '\\'.utf8Size = 1 := rfl
      rw [escapes, one] at sizes
      rw [size_cons] at enough
      rw [escapes, loop_next step, sizes, Nat.add_sub_cancel, ih (c :: rest) (count + 1) fuel (by rw [split]; simp) (by omega), List.takeWhile_cons_of_pos rfl, List.length_cons]
      congr 3
      omega
    · rw [if_neg (by simpa using escapes)] at step
      rw [loop_done step, List.takeWhile_cons_of_neg (by simpa using escapes)]
      rfl

theorem is_escaped_spec (front body rest : List Char) :
    isEscaped (bytes (front ++ body ++ rest)) (size (front ++ body)) (size front) = .ok (endsEscaping body) := by
  have count := count_backslashes (s := front ++ body ++ rest) body.reverse rest 0
    ((bytes (front ++ body ++ rest)).length + 1) (by rw [List.reverse_reverse]) (by
      rw [Segment.size_reverse, length_bytes, size_append, size_append]
      omega)
  rw [List.reverse_reverse, Nat.zero_add] at count
  exact count

theorem quoted_length_skipped (style : QuoteStyle) (count : Nat) (skipped rest : List Char) :
    Literal.quotedLength style false skipped.length count (skipped ++ rest) =
      Literal.quotedLength style false 0 (count + skipped.length) rest := by
  induction skipped generalizing count with
  | nil => rfl
  | cons c later ih =>
    rw [List.cons_append, List.length_cons, Literal.quotedLength, ih, Nat.add_assoc, Nat.add_comm 1]

theorem quoted_length_behind (style : QuoteStyle) (count : Nat) {marker later tail : List Char} {c : Char}
    (nonempty : marker ≠ []) (whole : marker ++ later = c :: tail) :
    Literal.quotedLength style false (marker.length - 1) (count + 1) tail =
      Literal.quotedLength style false 0 (count + marker.length) later := by
  obtain ⟨d, others, rfl⟩ := List.exists_cons_of_ne_nil nonempty
  rw [List.cons_append] at whole
  obtain ⟨rfl, rfl⟩ := List.cons_eq_cons.mp whole
  rw [List.length_cons, Nat.add_sub_cancel, quoted_length_skipped, Nat.add_assoc, Nat.add_comm 1]

section

variable {s pre front : List Char} {style : QuoteStyle}

theorem pass_byte_first {before : List Char} {c : Char} {tail : List Char} (split : s = before ++ c :: tail) :
    passByte (bytes s) style (size before) =
      if breaksAt style c then .ok (.inr (size before, false)) else .ok (.inl (size before + 1)) := by
  unfold passByte breaksAt
  cases style.multiline with
  | true => rfl
  | false =>
    rw [byte_at_first split, ok_bind, first_is (by decide), if_neg Bool.false_ne_true, Bool.not_false, Bool.true_and]
    rfl

theorem string_step (ascii : Ascii style.closing) {body tail : List Char} {c : Char} {escaped : Bool}
    (split : s = pre ++ front ++ body ++ c :: tail) (known : style.escape = .backslash → escaped = endsEscaping body) :
    stringStep (bytes s) style (size (pre ++ front)) (size (pre ++ front ++ body)) =
      if doubledAt style (c :: tail) then .ok (.inl (size (pre ++ front ++ body) + size style.closing * 2))
      else if closesAt style escaped (c :: tail) then .ok (.inr (size (pre ++ front ++ body) + size style.closing, true))
      else if breaksAt style c then .ok (.inr (size (pre ++ front ++ body), false))
      else .ok (.inl (size (pre ++ front ++ body) + 1)) := by
  have rest : bytesFrom (bytes s) (size (pre ++ front ++ body)) = .ok (bytes (c :: tail)) := by
    rw [split]
    exact bytes_from _ _
  have pass : passByte (bytes s) style (size (pre ++ front ++ body)) = _ := pass_byte_first split
  rw [stringStep, if_pos (index_lt_of_split split), rest, ok_bind, prefix_bytes ascii, length_bytes]
  rw [doubled_at_eq]
  unfold closesAt
  by_cases here : style.closing.isPrefixOf (c :: tail) = true
  · rw [if_pos here, here, Bool.true_and, Bool.true_and]
    cases kind : style.escape with
    | backslash =>
      have escapedHere : isEscaped (bytes s) (size (pre ++ front ++ body)) (size (pre ++ front)) = .ok escaped := by
        rw [split, known kind]
        exact is_escaped_spec _ _ _
      simp only [escapedHere, ok_bind]
      cases escaped with
      | true => exact pass
      | false => rfl
    | doubled =>
      obtain ⟨later, whole⟩ := List.isPrefixOf_iff_prefix.mp here
      have beyond : bytesFrom (bytes s) (size (pre ++ front ++ body) + size style.closing) = .ok (bytes later) := by
        rw [split, ← whole, ← List.append_assoc, ← size_append]
        exact bytes_from _ _
      rw [← whole, List.drop_left]
      simp only [beyond, ok_bind, prefix_bytes ascii]
      cases style.closing.isPrefixOf later <;> rfl
    | never => rfl
  · rw [if_neg here, Bool.eq_false_iff.mpr here]
    exact pass

theorem string_step_end {j : Nat} (beyond : (bytes s).length ≤ j) (start : Nat) :
    stringStep (bytes s) style start j = .ok (.inr (size s, false)) := by
  rw [stringStep, if_neg (Nat.not_lt.mpr beyond), length_bytes]
  rfl

theorem string_skips (ascii : Ascii style.closing) (closes : style.closing ≠ []) (start stop : Nat) :
    SkipsHigh (stringStep (bytes s) style start) (fun j => j) (bytes s) stop := by
  intro j b more here high _
  rw [stringStep, if_pos (lt_length_of_drop here), bytes_from_of_drop here, ok_bind, not_prefix_high ascii closes high,
    passByte, byte_at_of_drop here, ok_bind, high_is_not (by decide) high]
  cases style.multiline <;> rfl

theorem string_end_spec (ascii : Ascii style.closing) (closes : style.closing ≠ []) (body rest : List Char)
    (escaped : Bool) (fuel : Nat) (split : s = pre ++ front ++ body ++ rest) (enough : size rest < fuel)
    (known : style.escape = .backslash → escaped = endsEscaping body) :
    loop (stringStep (bytes s) style (size (pre ++ front))) fuel (size (pre ++ front ++ body)) =
      .ok (size pre + size ((front ++ body ++ rest).take
        (Literal.quotedLength style escaped 0 (front ++ body).length rest).1),
        (Literal.quotedLength style escaped 0 (front ++ body).length rest).2) := by
  induction fuel using Nat.strongRecOn generalizing body rest escaped with
  | ind fuel ih =>
  obtain ⟨fuel, rfl⟩ := Nat.exists_eq_add_one.mpr (Nat.zero_lt_of_lt enough)
  cases rest with
  | nil =>
    rw [List.append_nil] at split
    have beyond : (bytes s).length ≤ size (pre ++ front ++ body) := Nat.le_of_eq (by rw [length_bytes, split])
    rw [loop_done (string_step_end beyond _), Literal.quotedLength, List.append_nil, List.take_length, split,
      List.append_assoc, size_append]
  | cons c tail =>
    have positive := Char.utf8Size_pos c
    have step := string_step ascii split known
    rw [quoted_length_cons]
    by_cases doubled : doubledAt style (c :: tail) = true
    · obtain ⟨kind, later, whole⟩ := doubled_at_iff.mp doubled
      rw [if_pos doubled] at step
      have nonempty : style.closing ++ style.closing ≠ [] := fun none => closes (List.append_eq_nil_iff.mp none).1
      have twice : 2 * style.closing.length - 1 = (style.closing ++ style.closing).length - 1 := by
        rw [List.length_append, Nat.two_mul]
      have place : size (pre ++ front ++ body) + size style.closing * 2 =
          size (pre ++ front ++ (body ++ (style.closing ++ style.closing))) := by
        rw [← List.append_assoc _ body, size_append _ (style.closing ++ style.closing), size_append style.closing, Nat.mul_two]
      have smaller : size later < size (c :: tail) := by
        have some : size style.closing ≠ 0 := fun none => closes (size_eq_zero_iff.mp none)
        rw [← whole, size_append, size_append]
        omega
      have next := ih fuel (Nat.lt_succ_self fuel) (body ++ (style.closing ++ style.closing)) later false
        (by rw [split, ← whole]; simp) (by omega) (fun other => by rw [kind] at other; contradiction)
      rw [← List.append_assoc front, List.append_assoc _ _ later, whole, List.length_append] at next
      rw [loop_next step, if_pos doubled, place, next, twice, quoted_length_behind style _ nonempty whole]
    rw [if_neg doubled] at step
    rw [if_neg doubled]
    by_cases ends : closesAt style escaped (c :: tail) = true
    · rw [if_pos ends] at step
      obtain ⟨later, whole⟩ := prefix_of_closes ends
      rw [loop_done step, if_pos ends, ← whole, ← List.append_assoc, ← List.length_append, List.take_left]
      simp [Nat.add_assoc]
    rw [if_neg ends] at step
    rw [if_neg ends]
    by_cases breaks : breaksAt style c = true
    · rw [if_pos breaks] at step
      rw [loop_done step, if_pos breaks, List.take_left, List.append_assoc, size_append]
    rw [if_neg breaks] at step
    rw [if_neg breaks]
    rw [size_cons] at enough
    have next := ih (fuel + 1 - c.utf8Size) (by omega) (body ++ [c]) tail (c == '\\' && !escaped)
      (by rw [split]; simp) (by omega) (fun kind => by rw [ends_escaping_concat, known kind])
    have count : (front ++ (body ++ [c])).length = (front ++ body).length + 1 := by simp [Nat.add_assoc]
    have full : front ++ (body ++ [c]) ++ tail = front ++ body ++ c :: tail := by simp
    rw [count, full, ← List.append_assoc _ body] at next
    exact (loop_char (fun j => j) split step (string_skips ascii closes _ _) (by omega)).trans next

end

theorem flag_end_spec {s : List Char} (before rest : List Char) (fuel : Nat) (split : s = before ++ rest)
    (enough : size rest < fuel) :
    loop (flagStep (bytes s)) fuel (size before) = .ok (size before + size (rest.takeWhile Char.isAlpha)) := by
  induction rest generalizing before fuel with
  | nil =>
    obtain ⟨fuel, rfl⟩ := Nat.exists_eq_add_one.mpr (Nat.zero_lt_of_lt enough)
    have finished : flagStep (bytes s) (size before) = .ok (.inr (size before)) := by
      rw [flagStep, length_bytes, split, List.append_nil, if_neg (Nat.lt_irrefl _)]
      rfl
    exact loop_done finished fuel
  | cons c tail ih =>
    obtain ⟨fuel, rfl⟩ := Nat.exists_eq_add_one.mpr (Nat.zero_lt_of_lt enough)
    have positive := Char.utf8Size_pos c
    have step : flagStep (bytes s) (size before) =
        if c.isAlpha then .ok (.inl (size before + 1)) else .ok (.inr (size before)) := by
      rw [flagStep, if_pos (index_lt_of_split split), byte_at_first split, ok_bind, test_first is_alpha_test]
      rfl
    by_cases letter : c.isAlpha = true
    · rw [if_pos letter] at step
      have one : c.utf8Size = 1 := utf8_size_ascii (ascii_of_alpha letter)
      have next := ih (before ++ [c]) fuel (by rw [split]; simp) (by rw [size_cons] at enough; omega)
      rw [size_append, size_singleton, one] at next
      rw [loop_next step, next, List.takeWhile_cons_of_pos letter, size_cons, one, Nat.add_assoc]
    · rw [if_neg letter] at step
      rw [loop_done step, List.takeWhile_cons_of_neg letter]
      rfl

theorem regex_next_none {inClass : Bool} {c : Char} (ends : regexNext inClass false c = none) : c = '\n' ∨ c = '/' := by
  rw [regexNext, if_neg Bool.false_ne_true] at ends
  split_ifs at ends with feed _ _ _ slash
  · exact .inl (beq_iff_eq.mp feed)
  · exact .inr (beq_iff_eq.mp (Bool.and_eq_true_iff.mp slash).1)

theorem regex_next_escapes {inClass inClass' : Bool} {c : Char} (escapes : regexNext inClass false c = some (inClass', true)) :
    c = '\\' := by
  rw [regexNext, if_neg Bool.false_ne_true] at escapes
  split_ifs at escapes with _ same
  · exact beq_iff_eq.mp same
  all_goals simp at escapes

section

variable {s pre : List Char}

theorem regex_step_end {j : Nat} (beyond : (bytes s).length ≤ j) (start : Nat) (inClass : Bool) :
    regexStep (bytes s) start (j, inClass) = .ok (.inr none) := by
  rw [regexStep, if_neg (Nat.not_lt.mpr beyond)]
  rfl

theorem regex_step {taken tail : List Char} {c : Char} (split : s = (pre ++ '/' :: taken) ++ c :: tail) (inClass : Bool) :
    regexStep (bytes s) (size pre) (size (pre ++ '/' :: taken), inClass) =
      match regexNext inClass false c with
      | some (inClass, true) => .ok (.inl (size (pre ++ '/' :: taken) + 2, inClass))
      | some (inClass, false) => .ok (.inl (size (pre ++ '/' :: taken) + 1, inClass))
      | none =>
        if c = '\n' ∨ taken.length = 0 then .ok (.inr none)
        else .ok (.inr (some (size (pre ++ '/' :: taken) + 1 + size (tail.takeWhile Char.isAlpha)))) := by
  have empty : size (pre ++ '/' :: taken) = size pre + 1 ↔ taken.length = 0 := by
    have one : '/'.utf8Size = 1 := rfl
    rw [size_append, size_cons, one, List.length_eq_zero_iff, ← size_eq_zero_iff]
    omega
  have flags : c = '/' → loop (flagStep (bytes s)) ((bytes s).length + 1) (size (pre ++ '/' :: taken) + 1) =
      .ok (size (pre ++ '/' :: taken) + 1 + size (tail.takeWhile Char.isAlpha)) := by
    rintro rfl
    have one : size (pre ++ '/' :: taken ++ ['/']) = size (pre ++ '/' :: taken) + 1 := size_append _ ['/']
    rw [← one]
    refine flag_end_spec _ tail _ (by rw [split]; simp) ?_
    rw [length_bytes, split, size_append _ ('/' :: tail), size_cons]
    omega
  rw [regexStep, if_pos (index_lt_of_split split), byte_at_first split, ok_bind, regexNext, if_neg Bool.false_ne_true]
  simp only [first_is (show '\n'.toNat < 128 by decide), first_is (show '\\'.toNat < 128 by decide),
    first_is (show '['.toNat < 128 by decide), first_is (show ']'.toNat < 128 by decide),
    first_is (show '/'.toNat < 128 by decide), empty]
  by_cases feed : (c == '\n') = true
  · rw [if_pos feed, if_pos feed, beq_iff_eq.mp feed]
    rfl
  have noFeed : ¬c = '\n' := fun same => feed (beq_iff_eq.mpr same)
  simp only [if_neg feed, noFeed, false_or]
  by_cases escapes : (c == '\\') = true
  · rw [if_pos escapes, if_pos escapes]
    rfl
  rw [if_neg escapes, if_neg escapes]
  by_cases opens : (c == '[') = true
  · rw [if_pos opens, if_pos opens]
    rfl
  rw [if_neg opens, if_neg opens]
  by_cases closes : (c == ']') = true
  · rw [if_pos closes, if_pos closes]
    rfl
  rw [if_neg closes, if_neg closes]
  by_cases slash : (c == '/' && !inClass) = true
  · rw [if_pos slash, if_pos slash, flags (beq_iff_eq.mp (Bool.and_eq_true_iff.mp slash).1)]
    rfl
  · rw [if_neg slash, if_neg slash]
    rfl

theorem regex_skips (start : Nat) (inClass : Bool) (stop : Nat) :
    SkipsHigh (regexStep (bytes s) start) (fun j => (j, inClass)) (bytes s) stop := by
  intro j b more here high _
  rw [regexStep, if_pos (lt_length_of_drop here), byte_at_of_drop here, ok_bind]
  simp only [high_is_not (show '\n'.toNat < 128 by decide) high, high_is_not (show '\\'.toNat < 128 by decide) high,
    high_is_not (show '['.toNat < 128 by decide) high, high_is_not (show ']'.toNat < 128 by decide) high,
    high_is_not (show '/'.toNat < 128 by decide) high]
  rfl

-- A literal ends behind the flags that follow its closing slash.
theorem size_to_flags (taken tail : List Char) :
    size pre + size (('/' :: (taken ++ '/' :: tail)).take (taken.length + 1 + (tail.takeWhile Char.isAlpha).length + 1)) =
      size (pre ++ '/' :: taken) + 1 + size (tail.takeWhile Char.isAlpha) := by
  have parts : '/' :: (taken ++ '/' :: tail) =
      ('/' :: taken ++ ['/'] ++ tail.takeWhile Char.isAlpha) ++ tail.dropWhile Char.isAlpha := by simp
  have count : taken.length + 1 + (tail.takeWhile Char.isAlpha).length + 1 =
      ('/' :: taken ++ ['/'] ++ tail.takeWhile Char.isAlpha).length := by
    simp only [List.length_append, List.length_cons, List.length_nil]
    omega
  have one : '/'.utf8Size = 1 := rfl
  rw [parts, count, List.take_left]
  simp only [size_append, size_singleton, one, Nat.add_assoc]

theorem regex_end_spec (taken rest : List Char) (inClass : Bool) (fuel : Nat) (split : s = pre ++ '/' :: taken ++ rest)
    (enough : size rest < fuel) :
    loop (regexStep (bytes s) (size pre)) fuel (size (pre ++ '/' :: taken), inClass) =
      .ok ((Literal.regexLength inClass false taken.length rest).map fun n =>
        size pre + size (('/' :: (taken ++ rest)).take (n + 1))) := by
  induction fuel using Nat.strongRecOn generalizing taken rest inClass with
  | ind fuel ih =>
  obtain ⟨fuel, rfl⟩ := Nat.exists_eq_add_one.mpr (Nat.zero_lt_of_lt enough)
  cases rest with
  | nil =>
    have beyond : (bytes s).length ≤ size (pre ++ '/' :: taken) :=
      Nat.le_of_eq (by rw [length_bytes, split, List.append_nil])
    exact loop_done (regex_step_end beyond _ inClass) fuel
  | cons c tail =>
    have positive := Char.utf8Size_pos c
    rw [size_cons] at enough
    have step := regex_step split inClass
    rw [regex_length_cons]
    rcases next : regexNext inClass false c with _ | ⟨inClass', _ | _⟩
    · rw [next] at step
      dsimp only at step ⊢
      by_cases fails : c = '\n' ∨ taken.length = 0
      · rw [if_pos fails] at step
        rw [loop_done step, if_pos fails]
        rfl
      · have slash := (regex_next_none next).resolve_left fun feed => fails (.inl feed)
        rw [if_neg fails] at step
        rw [loop_done step, if_neg fails, Option.map_some, slash, size_to_flags]
    · rw [next] at step
      have moved := loop_rest (fun j => (j, inClass')) split (regex_skips (size pre) inClass' _)
        (show c.utf8Size ≤ fuel + 1 by omega)
      have later := ih (fuel + 1 - c.utf8Size) (by omega) (taken ++ [c]) tail inClass' (by rw [split]; simp) (by omega)
      rw [List.length_append, List.length_singleton, List.append_assoc, List.singleton_append, ← List.cons_append,
        ← List.append_assoc] at later
      exact (loop_next step fuel).trans (moved.trans later)
    · have one : c.utf8Size = 1 := by rw [regex_next_escapes next]; rfl
      have place : size (pre ++ '/' :: taken) + 2 = size (pre ++ '/' :: taken ++ [c]) + 1 := by
        rw [size_append _ [c], size_singleton, one]
      rw [next] at step
      rw [loop_next step, place]
      -- The escaped character may have more bytes than the one that is jumped over.
      cases tail with
      | nil =>
        obtain ⟨fuel, rfl⟩ := Nat.exists_eq_add_one.mpr (show 0 < fuel by omega)
        have beyond : (bytes s).length ≤ size (pre ++ '/' :: taken ++ [c]) + 1 := by
          rw [length_bytes, split]
          exact Nat.le_succ _
        exact loop_done (regex_step_end beyond _ inClass') fuel
      | cons d later =>
        have positiveD := Char.utf8Size_pos d
        rw [size_cons] at enough
        have whole : s = (pre ++ '/' :: taken ++ [c]) ++ d :: later := by rw [split]; simp
        have rest := loop_rest (fun j => (j, inClass')) whole (regex_skips (size pre) inClass' _)
          (show d.utf8Size ≤ fuel + 1 by omega)
        have behind := ih (fuel + 1 - d.utf8Size) (by omega) (taken ++ [c, d]) later inClass' (by rw [split]; simp) (by omega)
        have count : (taken ++ [c, d]).length = taken.length + 1 + 1 := by simp
        have front : pre ++ '/' :: (taken ++ [c, d]) = pre ++ '/' :: taken ++ [c] ++ [d] := by simp
        have full : taken ++ [c, d] ++ later = taken ++ c :: d :: later := by simp
        rw [count, front, full] at behind
        exact rest.trans behind

end

end SnippetReview.Bytewise
