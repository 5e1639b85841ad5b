import SnippetReview.Proofs.Bytewise.Segments
import SnippetReview.Proofs.Snippet.Walking

/- The walk over the code of a text, byte by byte. It visits every byte of a character; what decides a search
   is seen at the first one alone, and there it is what the walk over characters sees. -/

set_option autoImplicit false

namespace SnippetReview

open Text

namespace Bytewise

-- A byte of the code: its index, the depth before it, the last byte before it that is no blank, and the
-- bounds of the word that begins with it, if words matter.
structure CodeByte where
  pos : Nat
  byte : UInt8
  depth : Nat
  previous : Option UInt8
  word : Option (Nat × Nat)

structure ByteWalk where
  nesting : Nesting := {}
  previous : Option UInt8 := none
  lineHasCode : Bool := false
  seen : List CodeByte := []

def wordStep (bs : List UInt8) (stop j : Nat) : Checked (Nat ⊕ Nat) :=
  if j < stop then do
    let b ← byteAt bs j
    if isIdentChar (charOf b) then return .inl (j + 1) else return .inr j
  else return .inr j

def startsWord (g : Grammar) (bs : List UInt8) (i : Nat) (c : Char) : Checked Bool :=
  if g.blockWords.isSome && (c.isAlpha || c == '_') then do
    let before ← byteBefore bs i
    return !(before.map fun b => isIdentChar (charOf b)).getD false
  else return false

def keywordEffect (words : BlockWords) (bs : List UInt8) (word : List Char) (start stop : Nat) (lineHasCode : Bool) :
    Checked BlockEffect := do
  let before ← byteBefore bs start
  return words.effect (before.map charOf) word ((bs.drop stop).map charOf) lineHasCode

def seeWordByte (bs : List UInt8) (start stop depth : Nat) (w : ByteWalk) (pos : Nat) : Checked ByteWalk := do
  let b ← byteAt bs pos
  let word := if pos = start then some (start, stop) else none
  return { w with previous := some b, seen := ⟨pos, b, depth, w.previous, word⟩ :: w.seen }

def passWord (words : BlockWords) (s : List Char) (segmentStop i : Nat) (w : ByteWalk) : Checked (Nat × ByteWalk) := do
  let bs := bytes s
  let stop ← loop (wordStep bs segmentStop) (bs.length + 1) i
  let word ← slice s i stop
  let effect ← keywordEffect words bs word i stop w.lineHasCode
  let w' ← (List.range' i (stop - i)).foldlM (seeWordByte bs i stop w.nesting.depth) w
  return (stop, { w' with nesting := w.nesting.afterWord effect, lineHasCode := true })

def nestingAfter (g : Grammar) (n : Nesting) (bs : List UInt8) (i : Nat) (c : Char) : Checked Nesting :=
  if isOpening c then return n.openBracket
  else if isClosing c then return n.closeBracket
  else if c == '<' && g.generics then do
    let before ← byteBefore bs i
    return if opensGeneric (before.map charOf) (bs[i + 1]?.map charOf) then { n with angles := n.angles + 1 } else n
  else if c == '>' && g.generics && 0 < n.angles then do
    let before ← byteBefore bs i
    if before.map charOf != some '-' && before.map charOf != some '=' then do
      let angles ← minus n.angles 1
      return { n with angles }
    else return n
  else if c == ';' then return { n with angles := 0 }
  else return n

def passCode (g : Grammar) (bs : List UInt8) (i : Nat) (b : UInt8) (w : ByteWalk) : Checked ByteWalk := do
  let c := charOf b
  let nesting ← nestingAfter g w.nesting bs i c
  return {
    nesting
    previous := if isAsciiBlank c then w.previous else some b
    lineHasCode := if c == '\n' then false else w.lineHasCode || !isAsciiBlank c
    seen := ⟨i, b, w.nesting.depth, w.previous, none⟩ :: w.seen }

def codeStep (g : Grammar) (s : List Char) (stop : Nat) : Nat × ByteWalk → Checked ((Nat × ByteWalk) ⊕ ByteWalk)
  | (i, w) =>
    if i < stop then do
      let b ← byteAt (bytes s) i
      let wordStarts ← startsWord g (bytes s) i (charOf b)
      match (if wordStarts then g.blockWords else none) with
      | some words => do
        let next ← passWord words s stop i w
        return .inl next
      | none => do
        let next ← passCode g (bytes s) i b w
        return .inl (i + 1, next)
    else return .inr w

def passSpan (g : Grammar) (s : List Char) (w : ByteWalk) (span : Span) : Checked ByteWalk :=
  match span.kind with
  | .code => loop (codeStep g s span.stop) ((bytes s).length + 1) (span.start, w)
  | .quoted | .regex => do
    let last ← byteAt (bytes s) (← minus span.stop 1)
    return { w with previous := some last, lineHasCode := true }
  | .comment => do
    let part ← slice s span.start span.stop
    return { w with lineHasCode := w.lineHasCode && !part.contains '\n' }

def codeBytes (g : Grammar) (s : List Char) : Checked (List CodeByte) := do
  let spans ← segment g s
  let w ← spans.foldlM (passSpan g s) {}
  return w.seen.reverse

def findAtDepthZero (g : Grammar) (s : List Char) (stop : CodeByte → Checked Bool) : Checked (Option Nat) := do
  let seen ← codeBytes g s
  let found ← seen.findM? fun b => if b.depth = 0 then stop b else return false
  return found.map (·.pos)

def matchingClose (g : Grammar) (s : List Char) (closing : Char) : Checked (Option Nat) := do
  let seen ← codeBytes g s
  match seen.find? fun b => b.depth == 0 && isClosing (charOf b.byte) with
  | some b => return if charOf b.byte == closing then some b.pos else none
  | none => return none

def CodeByte.telling (b : CodeByte) : Bool := b.word.isSome || !isIdentChar (charOf b.byte)

end Bytewise

def Visit.sight (v : Visit) : Bytewise.CodeByte :=
  ⟨v.offset, Bytewise.firstByte v.char, v.depth, v.previous.map Bytewise.lastByte,
    v.word.map fun word => (v.offset, v.offset + size word)⟩

def Visit.telling (v : Visit) : Bool := v.word.isSome || !isIdentChar v.char

namespace Bytewise

structure Abreast (s : List Char) (b : ByteWalk) (w : Walk) : Prop where
  nesting : b.nesting = w.nesting
  previous : b.previous = w.previous.map lastByte
  lineHasCode : b.lineHasCode = w.lineHasCode
  seen : b.seen.filter CodeByte.telling = (w.visits.filter Visit.telling).map Visit.sight
  read : ∀ x ∈ b.seen, (bytes s)[x.pos]? = some x.byte

section

variable {g : Grammar}

theorem not_sign_of_ident {c : Char} (ident : isIdentChar c = true) : isOpening c = false ∧ isClosing c = false ∧
    (c == '<') = false ∧ (c == '>') = false ∧ (c == ';') = false ∧ isAsciiBlank c = false ∧ (c == '\n') = false := by
  have other : ∀ d : Char, isIdentChar d = false → (c == d) = false := by
    intro d none
    refine beq_eq_false_iff_ne.mpr fun same => ?_
    rw [same, none] at ident
    contradiction
  unfold isOpening isClosing isAsciiBlank
  simp only [other _ (show isIdentChar '(' = false by decide), other _ (show isIdentChar '[' = false by decide),
    other _ (show isIdentChar '\x7b' = false by decide), other _ (show isIdentChar ')' = false by decide),
    other _ (show isIdentChar ']' = false by decide), other _ (show isIdentChar '\x7d' = false by decide),
    other _ (show isIdentChar '<' = false by decide), other _ (show isIdentChar '>' = false by decide),
    other _ (show isIdentChar ';' = false by decide), other _ (show isIdentChar ' ' = false by decide),
    other _ (show isIdentChar '\t' = false by decide), other _ (show isIdentChar '\n' = false by decide),
    other _ (show isIdentChar '\x0C' = false by decide), other _ (show isIdentChar '\r' = false by decide)]
  decide

theorem nesting_after_ident (n : Nesting) (before : Option Char) {c : Char} (rest : List Char)
    (ident : isIdentChar c = true) : n.after g before c rest = n := by
  obtain ⟨opening, closing, less, greater, semicolon, _, _⟩ := not_sign_of_ident ident
  unfold Nesting.after
  rw [opening, closing, less, greater, semicolon]
  rfl

theorem opens_generic_bytes (before after : Option Char) :
    opensGeneric ((before.map lastByte).map charOf) ((after.map firstByte).map charOf) = opensGeneric before after := by
  have next : IsByteTest fun c => c.isAlpha || c == '?' || c == '>' || c == '_' || c == '[' || c == '&' :=
    byte_test_or (byte_test_or (byte_test_or (byte_test_or (byte_test_or is_alpha_test (byte_test_beq (by decide)))
      (byte_test_beq (by decide))) (byte_test_beq (by decide))) (byte_test_beq (by decide))) (byte_test_beq (by decide))
  have left : ((before.map lastByte).map charOf).map isIdentChar = before.map isIdentChar := by
    cases before with
    | none => rfl
    | some c => exact congrArg some (test_last ident_char_test c)
  unfold opensGeneric
  rw [left]
  cases after with
  | none => rfl
  | some c => exact congrArg _ (test_first next c)

theorem opening_test : IsByteTest isOpening :=
  byte_test_or (byte_test_or (byte_test_beq (by decide)) (byte_test_beq (by decide))) (byte_test_beq (by decide))

theorem closing_test : IsByteTest isClosing :=
  byte_test_or (byte_test_or (byte_test_beq (by decide)) (byte_test_beq (by decide))) (byte_test_beq (by decide))

theorem last_byte_some {d : Char} (ascii : d.toNat < 128) (before : Option Char) :
    ((before.map lastByte).map charOf != some d) = (before != some d) := by
  cases before with
  | none => rfl
  | some c =>
    have same : (charOf (lastByte c) == d) = (c == d) := last_is ascii c
    rw [Option.map_some, Option.map_some, bne, bne]
    exact congrArg Bool.not same

theorem nesting_after_spec {s pre rest : List Char} {c : Char} (split : s = pre ++ c :: rest) (n : Nesting) :
    nestingAfter g n (bytes s) (size pre) (charOf (firstByte c)) = .ok (n.after g pre.getLast? c rest) := by
  have before : byteBefore (bytes s) (size pre) = .ok (pre.getLast?.map lastByte) := by
    rw [split]
    exact byte_before pre (c :: rest)
  unfold nestingAfter Nesting.after
  rw [test_first opening_test, test_first closing_test, first_is (by decide), first_is (by decide), first_is (by decide),
    before, ok_bind, ok_bind]
  by_cases opens : isOpening c = true
  · rw [if_pos opens, if_pos opens]
    rfl
  rw [if_neg opens, if_neg opens]
  by_cases closes : isClosing c = true
  · rw [if_pos closes, if_pos closes]
    rfl
  rw [if_neg closes, if_neg closes]
  by_cases less : (c == '<' && g.generics) = true
  · rw [if_pos less, less, Bool.true_and]
    rw [Bool.and_eq_true, beq_iff_eq] at less
    have after : (bytes s)[size pre + 1]? = rest.head?.map firstByte := by
      have single : size (pre ++ [c]) = size pre + 1 := by
        rw [less.1, size_append]
        rfl
      have found := get_first (pre ++ [c]) rest
      rw [single] at found
      rw [split, ← found]
      simp
    have others : (c == '>') = false ∧ (c == ';') = false := by rw [less.1]; decide
    rw [after, opens_generic_bytes, others.1, others.2, Bool.false_and, Bool.false_and, Bool.false_and, Bool.false_and]
    cases opensGeneric pre.getLast? rest.head? <;> rfl
  have noLess : (c == '<' && g.generics && opensGeneric pre.getLast? rest.head?) = false := by
    rw [Bool.eq_false_iff.mpr less, Bool.false_and]
  rw [if_neg less, noLess, last_byte_some (by decide), last_byte_some (by decide), if_neg Bool.false_ne_true]
  by_cases greater : (c == '>' && g.generics && decide (0 < n.angles)) = true
  · have positive : 0 < n.angles := of_decide_eq_true (Bool.and_eq_true_iff.mp greater).2
    have others : (c == ';') = false := by
      rw [Bool.and_eq_true, Bool.and_eq_true, beq_iff_eq] at greater
      rw [greater.1.1]
      decide
    rw [if_pos greater, greater, Bool.true_and, minus_of_le positive, others]
    cases pre.getLast? != some '-' && pre.getLast? != some '=' <;> rfl
  · have none : (c == '>' && g.generics && decide (0 < n.angles) && pre.getLast? != some '-' && pre.getLast? != some '=') = false := by
      rw [Bool.eq_false_iff.mpr greater, Bool.false_and, Bool.false_and]
    rw [if_neg greater, none, if_neg Bool.false_ne_true]
    cases c == ';' <;> rfl

theorem starts_word_spec {s pre rest : List Char} {c : Char} (split : s = pre ++ c :: rest) :
    startsWord g (bytes s) (size pre) (charOf (firstByte c)) = .ok (Walk.wordAt g pre.getLast? c rest).isSome := by
  have before : byteBefore (bytes s) (size pre) = .ok (pre.getLast?.map lastByte) := by
    rw [split]
    exact byte_before pre (c :: rest)
  have ident : (pre.getLast?.map lastByte).map (fun b => isIdentChar (charOf b)) = pre.getLast?.map isIdentChar := by
    cases pre.getLast? with
    | none => rfl
    | some d => exact congrArg some (test_last ident_char_test d)
  have letter : ((charOf (firstByte c)).isAlpha || charOf (firstByte c) == '_') = (c.isAlpha || c == '_') :=
    test_first (byte_test_or is_alpha_test (byte_test_beq (by decide))) c
  unfold startsWord Walk.wordAt
  rw [letter, before, ok_bind, ident]
  by_cases may : (g.blockWords.isSome && (c.isAlpha || c == '_')) = true
  · rw [if_pos may, may, Bool.true_and]
    cases (pre.getLast?.map isIdentChar).getD false <;> rfl
  · rw [if_neg may, Bool.eq_false_iff.mpr may, Bool.false_and]
    rfl

-- Between brackets and signs a walk goes on without looking at what it passes.
theorem pass_code_ident {bs : List UInt8} {j : Nat} {b : UInt8} (ident : isIdentChar (charOf b) = true) (w : ByteWalk) :
    passCode g bs j b w = .ok
      { w with previous := some b, lineHasCode := true, seen := ⟨j, b, w.nesting.depth, w.previous, none⟩ :: w.seen } := by
  obtain ⟨opening, closing, less, greater, semicolon, blank, feed⟩ := not_sign_of_ident ident
  unfold passCode nestingAfter
  simp only [opening, closing, less, greater, semicolon, blank, feed, Bool.false_and, Bool.false_eq_true, if_false,
    Bool.not_false, Bool.or_true]
  rfl

theorem code_step_high {s : List Char} {stop j : Nat} {b : UInt8} {more : List UInt8}
    (here : (bytes s).drop j = b :: more) (high : 128 ≤ b.toNat) (inside : j < stop) (w : ByteWalk) :
    codeStep g s stop (j, w) = .ok (.inl (j + 1,
      { w with previous := some b, lineHasCode := true, seen := ⟨j, b, w.nesting.depth, w.previous, none⟩ :: w.seen })) := by
  have noWord : startsWord g (bytes s) j (charOf b) = .ok false := by
    rw [startsWord, high_fails (fun _ => ascii_of_alpha) high, high_is_not (by decide) high, Bool.or_false, Bool.and_false]
    rfl
  have ident : isIdentChar (charOf b) = true := ident_of_high (by rwa [to_nat_char_of])
  rw [codeStep, if_pos inside, byte_at_of_drop here, ok_bind, noWord, ok_bind, pass_code_ident ident]
  rfl

structure Passes (bs : List UInt8) (w w' : ByteWalk) (last : UInt8) : Prop where
  nesting : w'.nesting = w.nesting
  previous : w'.previous = some last
  seen : w'.seen.filter CodeByte.telling = w.seen.filter CodeByte.telling
  read : ∀ x ∈ w'.seen, x ∈ w.seen ∨ bs[x.pos]? = some x.byte

theorem loop_high_code {s pre rest : List Char} {c : Char} {stop : Nat} (split : s = pre ++ c :: rest)
    (high : 128 ≤ c.toNat) (inside : size pre + c.utf8Size ≤ stop) (w : ByteWalk) {k : Nat} (less : k < c.utf8Size) :
    ∃ w', (∀ fuel, loop (codeStep g s stop) (fuel + (c.utf8Size - k)) (size pre + k, w) =
        loop (codeStep g s stop) fuel (size pre + c.utf8Size, w')) ∧
      Passes (bytes s) w w' (lastByte c) ∧ w'.lineHasCode = true := by
  generalize left : c.utf8Size - k = n
  induction n generalizing k w with
  | zero => omega
  | succ n ih =>
    obtain ⟨b, more, here, highB⟩ := interior split high less
    have step := code_step_high (g := g) here highB (show size pre + k < stop by omega) w
    have untold : CodeByte.telling ⟨size pre + k, b, w.nesting.depth, w.previous, none⟩ = false := by
      rw [CodeByte.telling, ident_of_high (by rwa [to_nat_char_of])]
      rfl
    have found : byteAt (bytes s) (size pre + k) = .ok b := byte_at_of_drop here
    have read : (bytes s)[size pre + k]? = some b := by rw [← List.head?_drop, here, List.head?_cons]
    let next : ByteWalk :=
      { w with previous := some b, lineHasCode := true, seen := ⟨size pre + k, b, w.nesting.depth, w.previous, none⟩ :: w.seen }
    have seen : next.seen.filter CodeByte.telling = w.seen.filter CodeByte.telling :=
      List.filter_cons_of_neg (by rw [untold]; exact Bool.false_ne_true)
    have reads : ∀ x ∈ next.seen, x ∈ w.seen ∨ (bytes s)[x.pos]? = some x.byte := by
      intro x member
      rcases List.mem_cons.mp member with rfl | earlier
      · exact .inr read
      · exact .inl earlier
    cases n with
    | zero =>
      have last := byte_at_last pre c rest
      rw [← split, show size pre + c.utf8Size - 1 = size pre + k by omega, found] at last
      refine ⟨next, fun fuel => ?_, ⟨rfl, congrArg some (Except.ok.inj last), seen, reads⟩, rfl⟩
      rw [loop_next step, show size pre + k + 1 = size pre + c.utf8Size by omega]
    | succ n =>
      obtain ⟨w', runs, passes, has⟩ := ih next (show k + 1 < c.utf8Size by omega) (by omega)
      refine ⟨w', fun fuel => ?_, ⟨passes.nesting, passes.previous, passes.seen.trans seen, fun x member => ?_⟩, has⟩
      · rw [← Nat.add_assoc, loop_next step]
        exact runs fuel
      · rcases passes.read x member with passed | here
        · exact reads x passed
        · exact .inr here

theorem word_end_spec {s : List Char} (pre t post : List Char) (fuel : Nat) (split : s = pre ++ t ++ post)
    (enough : size t < fuel) :
    loop (wordStep (bytes s) (size (pre ++ t))) fuel (size pre) = .ok (size (pre ++ t.takeWhile isIdentChar)) := by
  induction fuel using Nat.strongRecOn generalizing pre t with
  | ind fuel ih =>
  obtain ⟨fuel, rfl⟩ := Nat.exists_eq_add_one.mpr (Nat.zero_lt_of_lt enough)
  cases t with
  | nil =>
    have finished : wordStep (bytes s) (size (pre ++ [])) (size pre) = .ok (.inr (size pre)) := by
      rw [wordStep, List.append_nil, if_neg (Nat.lt_irrefl _)]
      rfl
    rw [loop_done finished, List.takeWhile_nil, List.append_nil]
  | cons c tail =>
    have positive := Char.utf8Size_pos c
    have inside : size pre + c.utf8Size ≤ size (pre ++ c :: tail) := by
      rw [size_append, size_cons]
      omega
    have whole : s = pre ++ c :: (tail ++ post) := by rw [split]; simp
    have step : wordStep (bytes s) (size (pre ++ c :: tail)) (size pre) =
        if isIdentChar c then .ok (.inl (size pre + 1)) else .ok (.inr (size pre)) := by
      rw [wordStep, if_pos (by omega), byte_at_first whole, ok_bind, test_first ident_char_test]
      rfl
    by_cases ident : isIdentChar c = true
    · rw [if_pos ident] at step
      have skips : SkipsHigh (wordStep (bytes s) (size (pre ++ c :: tail))) (fun j => j) (bytes s) (size pre + c.utf8Size) := by
        intro j b more beyond high less
        rw [wordStep, if_pos (Nat.lt_of_lt_of_le less inside), byte_at_of_drop beyond, ok_bind, ident_of_high (by rwa [to_nat_char_of])]
        rfl
      rw [size_cons] at enough
      have moved := loop_char (fun j => j) whole step skips (show c.utf8Size ≤ fuel + 1 by omega)
      have next := ih (fuel + 1 - c.utf8Size) (by omega) (pre ++ [c]) tail (by rw [split]; simp) (by omega)
      rw [List.append_assoc, List.singleton_append, List.append_assoc, List.singleton_append] at next
      rw [moved, next, List.takeWhile_cons_of_pos ident]
    · rw [if_neg ident] at step
      rw [loop_done step, List.takeWhile_cons_of_neg ident, List.append_nil]

theorem see_word_bytes {bs more : List UInt8} {start : Nat} (stop depth : Nat) (region : List UInt8) (i : Nat) (w : ByteWalk)
    (after : start < i) (here : bs.drop i = region ++ more) (ident : ∀ b ∈ region, isIdentChar (charOf b) = true) :
    ∃ w', (List.range' i region.length).foldlM (seeWordByte bs start stop depth) w = .ok w' ∧
      w'.previous = region.getLast?.or w.previous ∧
      w'.seen.filter CodeByte.telling = w.seen.filter CodeByte.telling ∧
      ∀ x ∈ w'.seen, x ∈ w.seen ∨ bs[x.pos]? = some x.byte := by
  induction region generalizing i w with
  | nil => exact ⟨w, rfl, rfl, rfl, fun x member => .inl member⟩
  | cons b region ih =>
    have found : bs[i]? = some b := by rw [← List.head?_drop, here, List.cons_append, List.head?_cons]
    have untold : CodeByte.telling ⟨i, b, depth, w.previous, none⟩ = false := by
      rw [CodeByte.telling, ident b List.mem_cons_self]
      rfl
    let next : ByteWalk := { w with previous := some b, seen := ⟨i, b, depth, w.previous, none⟩ :: w.seen }
    have step : seeWordByte bs start stop depth w i = .ok next := by
      rw [seeWordByte, byte_at_of_drop here, ok_bind, if_neg (by omega)]
      rfl
    have rest : bs.drop (i + 1) = region ++ more := by
      rw [← List.drop_drop, here]
      rfl
    obtain ⟨w', runs, previous, seen, read⟩ := ih (i + 1) next (by omega) rest fun d member =>
      ident d (List.mem_cons_of_mem b member)
    refine ⟨w', ?_, ?_, ?_, ?_⟩
    · rw [List.length_cons, List.range'_succ, List.foldlM_cons, step]
      exact runs
    · rw [previous, List.getLast?_cons]
      cases region.getLast? <;> rfl
    · rw [seen]
      exact List.filter_cons_of_neg (by rw [untold]; exact Bool.false_ne_true)
    · intro x member
      rcases read x member with earlier | here
      · rcases List.mem_cons.mp earlier with rfl | before
        · exact .inr found
        · exact .inl before
      · exact .inr here

theorem steps_add (w : Walk) (m n : Nat) : w.steps g (m + n) = (w.steps g m).steps g n := by
  induction m generalizing w with
  | zero => rw [Nat.zero_add, Walk.steps]
  | succ m ih =>
    rw [Nat.add_right_comm, Walk.steps, Walk.steps]
    exact ih (w.step g)

theorem word_at_inside {d : Char} (ident : isIdentChar d = true) (c : Char) (rest : List Char) :
    Walk.wordAt g (some d) c rest = none := by
  unfold Walk.wordAt
  rw [Option.map_some, Option.getD_some, ident, Bool.not_true, Bool.and_false]
  rfl

theorem steps_ident {d : Char} (u : List Char) {rest : List Char} (w : Walk) (inside : isIdentChar d = true)
    (before : w.cursor.before = some d) (stands : w.cursor.rest = u ++ rest) (ident : ∀ c ∈ u, isIdentChar c = true) :
    (w.steps g u.length).nesting = w.nesting ∧ (w.steps g u.length).previous = u.getLast?.or w.previous ∧
      (w.steps g u.length).lineHasCode = (w.lineHasCode || !u.isEmpty) ∧
      (w.steps g u.length).visits.filter Visit.telling = w.visits.filter Visit.telling := by
  induction u generalizing d w with
  | nil => exact ⟨rfl, rfl, (Bool.or_false _).symm, rfl⟩
  | cons c u ih =>
    have identC := ident c List.mem_cons_self
    obtain ⟨_, _, _, _, _, blank, feed⟩ := not_sign_of_ident identC
    have step : w.step g = {
        cursor := ⟨w.cursor.offset + c.utf8Size, some c, u ++ rest⟩
        nesting := w.nesting
        previous := some c
        lineHasCode := true
        visits := ⟨w.cursor.offset, some d, c, u ++ rest, w.nesting.depth, w.previous, none⟩ :: w.visits } := by
      unfold Walk.step
      rw [stands, List.cons_append]
      simp only [before, word_at_inside inside, nesting_after_ident _ _ _ identC, blank, feed, Bool.false_eq_true, if_false,
        Bool.not_false, Bool.or_true]
    obtain ⟨nesting, previous, lineHasCode, visits⟩ := ih (w.step g) identC (by rw [step]) (by rw [step]) fun e member =>
      ident e (List.mem_cons_of_mem c member)
    rw [List.length_cons, Walk.steps]
    refine ⟨by rw [nesting, step], ?_, ?_, ?_⟩
    · rw [previous, step, List.getLast?_cons]
      cases u.getLast? <;> rfl
    · rw [lineHasCode, step, List.isEmpty_cons, Bool.not_false, Bool.or_true, Bool.true_or]
    · rw [visits, step]
      refine List.filter_cons_of_neg ?_
      rw [Visit.telling, identC]
      exact Bool.false_ne_true

def namesWord : List Char → Bool
  | ':' :: next => next.head? != some ':'
  | c :: _ => c == '?' || c == '!'
  | [] => false

theorem names_word_other {c : Char} (other : c ≠ ':') (rest : List Char) :
    namesWord (c :: rest) = (c == '?' || c == '!') := by
  rw [namesWord]
  exact other

theorem effect_eq (words : BlockWords) (before : Option Char) (word after : List Char) (lineHasCode : Bool) :
    words.effect before word after lineHasCode =
      if ((before.map fun c => c == '.' || c == ':' || c == '@' || c == '$').getD false || namesWord after) = true then .nothing
      else if words.openers.contains word then .opens
      else if words.lineOpeners.contains word && !lineHasCode then .opens
      else if word == words.closer then .closes
      else .nothing := rfl

theorem names_word_bytes (after : List Char) : namesWord ((bytes after).map charOf) = namesWord after := by
  cases after with
  | nil => rfl
  | cons c more =>
    by_cases colon : c = ':'
    · rw [colon, bytes_cons, encode_ascii (by decide)]
      cases more with
      | nil => rfl
      | cons d later =>
        rw [bytes_cons, encode_first]
        exact congrArg Bool.not (first_is (by decide) d)
    · have other : charOf (firstByte c) ≠ ':' := by
        rw [← beq_eq_false_iff_ne, first_is (by decide), beq_eq_false_iff_ne]
        exact colon
      rw [bytes_cons, encode_first, List.cons_append, List.map_cons, names_word_other other, names_word_other colon,
        first_is (by decide), first_is (by decide)]

theorem effect_bytes (words : BlockWords) (before : Option Char) (word after : List Char) (lineHasCode : Bool) :
    words.effect ((before.map lastByte).map charOf) word ((bytes after).map charOf) lineHasCode =
      words.effect before word after lineHasCode := by
  have signs : IsByteTest fun c => c == '.' || c == ':' || c == '@' || c == '$' :=
    byte_test_or (byte_test_or (byte_test_or (byte_test_beq (by decide)) (byte_test_beq (by decide)))
      (byte_test_beq (by decide))) (byte_test_beq (by decide))
  have left : ((before.map lastByte).map charOf).map (fun c => c == '.' || c == ':' || c == '@' || c == '$') =
      before.map fun c => c == '.' || c == ':' || c == '@' || c == '$' := by
    cases before with
    | none => rfl
    | some c => exact congrArg some (test_last signs c)
  rw [effect_eq, effect_eq, left, names_word_bytes]

theorem get_last_bytes (u : List Char) : (bytes u).getLast? = u.getLast?.map lastByte := by
  rcases List.eq_nil_or_concat u with rfl | ⟨front, c, rfl⟩
  · rfl
  · rw [List.concat_eq_append, bytes_append, bytes_cons, bytes_nil, List.append_nil, encode_last, ← List.append_assoc,
      List.getLast?_concat, List.getLast?_concat]
    rfl

theorem step_word {words : BlockWords} {c : Char} {rest word : List Char} {w : Walk} (hasWords : g.blockWords = some words)
    (stands : w.cursor.rest = c :: rest) (here : Walk.wordAt g w.cursor.before c rest = some word)
    (ident : isIdentChar c = true) :
    w.step g = {
      cursor := ⟨w.cursor.offset + c.utf8Size, some c, rest⟩
      nesting := w.nesting.afterWord
        (words.effect w.cursor.before word (rest.drop (word.length - 1)) w.lineHasCode)
      previous := some c
      lineHasCode := true
      visits := w.visitAt g c rest :: w.visits } := by
  obtain ⟨_, _, _, _, _, blank, feed⟩ := not_sign_of_ident ident
  unfold Walk.step Walk.visitAt
  rw [stands]
  simp only [here, hasWords, blank, feed, Bool.false_eq_true, if_false, Bool.not_false, Bool.or_true]

theorem word_at_some {before : Option Char} {c : Char} {rest : List Char}
    (starts : (Walk.wordAt g before c rest).isSome = true) :
    g.blockWords.isSome = true ∧ Walk.wordAt g before c rest = some (c :: rest.takeWhile isIdentChar) ∧
      isIdentChar c = true ∧ c.toNat < 128 := by
  unfold Walk.wordAt at starts ⊢
  by_cases may : (g.blockWords.isSome && (c.isAlpha || c == '_') && !(before.map isIdentChar).getD false) = true
  · rw [if_pos may]
    rw [Bool.and_eq_true, Bool.and_eq_true] at may
    have letter := may.1.2
    rw [Bool.or_eq_true, beq_iff_eq] at letter
    rcases letter with alpha | rfl
    · exact ⟨may.1.1, rfl, by rw [isIdentChar, Char.isAlphanum, alpha]; rfl, ascii_of_alpha alpha⟩
    · exact ⟨may.1.1, rfl, by decide, by decide⟩
  · rw [if_neg may] at starts
    contradiction

theorem take_while_bounded {post : List Char} (bounded : ∀ d ∈ post.head?, isIdentChar d = false) (t : List Char) :
    (t ++ post).takeWhile isIdentChar = t.takeWhile isIdentChar := by
  induction t with
  | nil =>
    cases post with
    | nil => rfl
    | cons d more =>
      have none : isIdentChar d = false := bounded d rfl
      rw [List.nil_append, List.takeWhile_nil]
      exact List.takeWhile_cons_of_neg (by rw [none]; exact Bool.false_ne_true)
  | cons c t ih =>
    rw [List.cons_append, List.takeWhile_cons, List.takeWhile_cons, ih]

theorem ident_of_mem_bytes {u : List Char} (ident : ∀ c ∈ u, isIdentChar c = true) :
    ∀ b ∈ bytes u, isIdentChar (charOf b) = true := by
  intro b member
  obtain ⟨c, inside, encoded⟩ := List.mem_flatMap.mp member
  rw [test_of_mem_encode ident_char_test encoded]
  exact ident c inside

section

variable {s pre u after : List Char} {c : Char} (whole : s = pre ++ (c :: u) ++ after)

include whole

theorem keyword_effect_spec (words : BlockWords) (lineHasCode : Bool) :
    keywordEffect words (bytes s) (c :: u) (size pre) (size (pre ++ c :: u)) lineHasCode =
      .ok (words.effect pre.getLast? (c :: u) after lineHasCode) := by
  have before : byteBefore (bytes s) (size pre) = .ok (pre.getLast?.map lastByte) := by
    rw [whole, List.append_assoc]
    exact byte_before pre (c :: u ++ after)
  rw [keywordEffect, before, ok_bind, drop_of_split whole, effect_bytes]
  rfl

theorem see_word (ascii : c.toNat < 128) (ident : ∀ d ∈ u, isIdentChar d = true) (depth : Nat) (w : ByteWalk) :
    ∃ w', (List.range' (size pre) (size (pre ++ c :: u) - size pre)).foldlM
        (seeWordByte (bytes s) (size pre) (size (pre ++ c :: u)) depth) w = .ok w' ∧
      w'.previous = ((c :: u).getLast?.map lastByte) ∧
      w'.seen.filter CodeByte.telling =
        ⟨size pre, firstByte c, depth, w.previous, some (size pre, size (pre ++ c :: u))⟩ ::
          w.seen.filter CodeByte.telling ∧
      ∀ x ∈ w'.seen, x ∈ w.seen ∨ (bytes s)[x.pos]? = some x.byte := by
  have split : s = pre ++ c :: (u ++ after) := by rw [whole, List.append_assoc, List.cons_append]
  have single := utf8_size_ascii ascii
  let first : ByteWalk := { w with
    previous := some (firstByte c)
    seen := ⟨size pre, firstByte c, depth, w.previous, some (size pre, size (pre ++ c :: u))⟩ :: w.seen }
  have seeFirst : seeWordByte (bytes s) (size pre) (size (pre ++ c :: u)) depth w (size pre) = .ok first := by
    rw [seeWordByte, byte_at_first split, ok_bind, if_pos rfl]
    rfl
  have firstRead : (bytes s)[size pre]? = some (firstByte c) := by
    rw [split, get_first]
    rfl
  have region : (bytes s).drop (size pre + 1) = bytes u ++ bytes after := by
    have front : size (pre ++ [c]) = size pre + 1 := by rw [size_append, size_singleton, single]
    rw [← front, ← bytes_append]
    exact drop_of_split (by rw [split]; simp)
  obtain ⟨w', runs, previous, seen, read⟩ := see_word_bytes (size (pre ++ c :: u)) depth (bytes u) (size pre + 1) first
    (Nat.lt_succ_self (size pre)) region (ident_of_mem_bytes ident)
  have count : size (pre ++ c :: u) - size pre = (bytes u).length + 1 := by
    rw [size_append, size_cons, single, length_bytes]
    omega
  refine ⟨w', ?_, ?_, seen, ?_⟩
  · rw [count, List.range'_succ, List.foldlM_cons, seeFirst]
    exact runs
  · have same : firstByte c = lastByte c := by
      rw [firstByte, lastByte, encode_ascii ascii]
      rfl
    rw [previous, get_last_bytes, List.getLast?_cons]
    cases u.getLast? with
    | none => exact congrArg some same
    | some d => rfl
  · intro x member
    rcases read x member with earlier | found
    · rcases List.mem_cons.mp earlier with rfl | old
      · exact .inr firstRead
      · exact .inl old
    · exact .inr found

end

theorem steps_word {words : BlockWords} {c : Char} {u after : List Char} {w : Walk} (hasWords : g.blockWords = some words)
    (stands : w.cursor.rest = c :: (u ++ after)) (here : Walk.wordAt g w.cursor.before c (u ++ after) = some (c :: u))
    (identC : isIdentChar c = true) (ident : ∀ d ∈ u, isIdentChar d = true) :
    (w.steps g (c :: u).length).nesting =
        w.nesting.afterWord (words.effect w.cursor.before (c :: u) after w.lineHasCode) ∧
      (w.steps g (c :: u).length).previous = (c :: u).getLast? ∧
      (w.steps g (c :: u).length).lineHasCode = true ∧
      (w.steps g (c :: u).length).visits.filter Visit.telling =
        w.visitAt g c (u ++ after) :: w.visits.filter Visit.telling := by
  have stepped := step_word hasWords stands here identC
  have dropped : (u ++ after).drop ((c :: u).length - 1) = after := List.drop_left
  rw [dropped] at stepped
  obtain ⟨nesting, previous, lineHasCode, visits⟩ := steps_ident (g := g) u (w.step g) identC (by rw [stepped])
    (by rw [stepped]) ident
  have told : (w.visitAt g c (u ++ after)).telling = true := by
    unfold Walk.visitAt Visit.telling
    rw [here]
    rfl
  rw [List.length_cons, Walk.steps]
  refine ⟨by rw [nesting, stepped], ?_, by rw [lineHasCode, stepped]; rfl, ?_⟩
  · rw [previous, stepped, List.getLast?_cons]
    cases u.getLast? <;> rfl
  · rw [visits, stepped, List.filter_cons_of_pos told]

theorem pass_word_spec {words : BlockWords} {s pre t post : List Char} {c : Char} {b : ByteWalk} {w : Walk}
    (hasWords : g.blockWords = some words) (split : s = pre ++ c :: t ++ post)
    (bounded : ∀ d ∈ post.head?, isIdentChar d = false)
    (cursor : w.cursor = ⟨size pre, pre.getLast?, c :: t ++ post⟩)
    (starts : (Walk.wordAt g pre.getLast? c (t ++ post)).isSome = true) (abreast : Abreast s b w) :
    ∃ b', passWord words s (size (pre ++ c :: t)) (size pre) b =
        .ok (size (pre ++ c :: t.takeWhile isIdentChar), b') ∧
      Abreast s b' (w.steps g (c :: t.takeWhile isIdentChar).length) := by
  obtain ⟨_, here, identC, ascii⟩ := word_at_some starts
  rw [take_while_bounded bounded] at here
  have stop := word_end_spec pre (c :: t) post ((bytes s).length + 1) split (by
    rw [length_bytes, split, size_append _ post, size_append]
    omega)
  rw [List.takeWhile_cons_of_pos identC] at stop
  have ident : ∀ d ∈ t.takeWhile isIdentChar, isIdentChar d = true := List.all_eq_true.mp List.all_takeWhile
  have tail : t ++ post = t.takeWhile isIdentChar ++ (t.dropWhile isIdentChar ++ post) := by
    rw [← List.append_assoc, List.takeWhile_append_dropWhile]
  generalize t.takeWhile isIdentChar = u at here stop ident tail ⊢
  generalize t.dropWhile isIdentChar ++ post = after at tail
  have whole : s = pre ++ (c :: u) ++ after := by rw [split, List.append_assoc, List.cons_append, tail]; simp
  have word : slice s (size pre) (size (pre ++ c :: u)) = .ok (c :: u) := slice_of_parts whole rfl (size_append _ _)
  obtain ⟨b', runs, previousB, seen, read⟩ := see_word whole ascii ident b.nesting.depth b
  have stands : w.cursor.rest = c :: (u ++ after) := by rw [cursor, List.cons_append, tail]
  have wordHere : Walk.wordAt g w.cursor.before c (u ++ after) = some (c :: u) := by rwa [cursor, ← tail]
  obtain ⟨nesting, previous, lineHasCode, visits⟩ := steps_word hasWords stands wordHere identC ident
  refine ⟨{ b' with nesting := b.nesting.afterWord (words.effect pre.getLast? (c :: u) after b.lineHasCode), lineHasCode := true },
    ?_, ?_⟩
  · rw [passWord, stop, ok_bind, word, ok_bind, keyword_effect_spec whole, ok_bind, runs]
    rfl
  constructor
  · rw [nesting, cursor, abreast.nesting, abreast.lineHasCode]
  · rw [previous]
    exact previousB
  · rw [lineHasCode]
  · have sight : (w.visitAt g c (u ++ after)).sight =
        ⟨size pre, firstByte c, b.nesting.depth, b.previous, some (size pre, size (pre ++ c :: u))⟩ := by
      unfold Walk.visitAt Visit.sight
      rw [wordHere, cursor, abreast.nesting, abreast.previous, size_append]
      rfl
    rw [visits, List.map_cons, sight, ← abreast.seen]
    exact seen
  · intro x member
    rcases read x member with old | found
    · exact abreast.read x old
    · exact found

end

end Bytewise

end SnippetReview
