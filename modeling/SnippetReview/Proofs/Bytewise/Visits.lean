import SnippetReview.Proofs.Bytewise.Walking
import SnippetReview.Proofs.Snippet.Standing

set_option autoImplicit false

namespace SnippetReview

open Text

namespace Bytewise

section

variable {g : Grammar} {s pre rest : List Char} {c : Char} {b : ByteWalk} {w : Walk}

theorem steps_cursor (pre rest u : List Char) {w : Walk}
    (cursor : w.cursor = ⟨size pre, pre.getLast?, u ++ rest⟩) :
    (w.steps g u.length).cursor = ⟨size (pre ++ u), (pre ++ u).getLast?, rest⟩ := by
  induction u generalizing pre w with
  | nil => rwa [List.append_nil]
  | cons c u ih =>
    have moved : (w.step g).cursor = ⟨size (pre ++ [c]), (pre ++ [c]).getLast?, u ++ rest⟩ := by
      rw [Walk.cursor_step (show w.cursor.rest = c :: (u ++ rest) by rw [cursor]; rfl), cursor, size_append, size_singleton,
        List.getLast?_concat]
    have next := ih (pre ++ [c]) moved
    rw [List.append_assoc, List.singleton_append] at next
    exact next

theorem step_char (stands : w.cursor.rest = c :: rest) (none : Walk.wordAt g w.cursor.before c rest = none) :
    w.step g = {
      cursor := ⟨w.cursor.offset + c.utf8Size, some c, rest⟩
      nesting := w.nesting.after g w.cursor.before c rest
      previous := if isAsciiBlank c then w.previous else some c
      lineHasCode := if c == '\n' then false else w.lineHasCode || !isAsciiBlank c
      visits := w.visitAt g c rest :: w.visits } := by
  unfold Walk.step Walk.visitAt
  rw [stands]
  simp only [none]

theorem pass_code_spec (ascii : c.toNat < 128) (split : s = pre ++ c :: rest)
    (cursor : w.cursor = ⟨size pre, pre.getLast?, c :: rest⟩) (none : Walk.wordAt g pre.getLast? c rest = none)
    (abreast : Abreast s b w) :
    ∃ b', passCode g (bytes s) (size pre) (firstByte c) b = .ok b' ∧ Abreast s b' (w.step g) := by
  have same : firstByte c = lastByte c := by
    rw [firstByte, lastByte, encode_ascii ascii]
    rfl
  have char : charOf (firstByte c) = c := by
    rw [firstByte, encode_ascii ascii]
    exact char_of_ascii ascii
  have nesting := nesting_after_spec (g := g) split b.nesting
  have stepped := step_char (g := g) (w := w) (show w.cursor.rest = c :: rest by rw [cursor]) (by rwa [cursor])
  have read : (bytes s)[size pre]? = some (firstByte c) := by
    rw [split, get_first]
    rfl
  have sight : (w.visitAt g c rest).sight = ⟨size pre, firstByte c, b.nesting.depth, b.previous, .none⟩ := by
    unfold Walk.visitAt Visit.sight
    rw [cursor, abreast.nesting, abreast.previous]
    simp only [none]
    rfl
  have told : CodeByte.telling (w.visitAt g c rest).sight = (w.visitAt g c rest).telling := by
    rw [sight, CodeByte.telling, char]
    unfold Walk.visitAt Visit.telling
    rw [cursor]
    simp only [none]
    rfl
  refine ⟨_, by rw [passCode, nesting, ok_bind]; rfl, ?_⟩
  rw [stepped, cursor, char]
  constructor
  · exact congrArg (fun n : Nesting => n.after g pre.getLast? c rest) abreast.nesting
  · dsimp only
    rw [abreast.previous, same]
    cases isAsciiBlank c <;> rfl
  · dsimp only
    rw [abreast.lineHasCode]
  · dsimp only
    rw [List.filter_cons, List.filter_cons, ← sight, told, abreast.seen]
    cases (w.visitAt g c rest).telling <;> rfl
  · intro x member
    rcases List.mem_cons.mp member with rfl | old
    · exact read
    · exact abreast.read x old

theorem loop_code_char (stop : Nat) (split : s = pre ++ c :: rest) (inside : size pre + c.utf8Size ≤ stop)
    (cursor : w.cursor = ⟨size pre, pre.getLast?, c :: rest⟩) (none : Walk.wordAt g pre.getLast? c rest = none)
    (abreast : Abreast s b w) :
    ∃ b', (∀ fuel, loop (codeStep g s stop) (fuel + c.utf8Size) (size pre, b) =
        loop (codeStep g s stop) fuel (size (pre ++ [c]), b')) ∧ Abreast s b' (w.step g) := by
  have positive := Char.utf8Size_pos c
  rw [size_append, size_singleton]
  by_cases ascii : c.toNat < 128
  · obtain ⟨b', passes, next⟩ := pass_code_spec ascii split cursor none abreast
    have here : byteAt (bytes s) (size pre) = .ok (firstByte c) := byte_at_first split
    have step : codeStep g s stop (size pre, b) = .ok (.inl (size pre + 1, b')) := by
      rw [codeStep, if_pos (by omega), here, ok_bind, starts_word_spec split, none, ok_bind]
      simp only [Option.isSome_none, Bool.false_eq_true, if_false]
      rw [passes]
      rfl
    refine ⟨b', fun fuel => ?_, next⟩
    rw [utf8_size_ascii ascii, loop_next step]
  · have high : 128 ≤ c.toNat := Nat.le_of_not_lt ascii
    have ident := ident_of_high high
    obtain ⟨b', runs, passes, has⟩ := loop_high_code (g := g) split high inside b positive
    have stepped := step_char (g := g) (w := w) (show w.cursor.rest = c :: rest by rw [cursor]) (by rwa [cursor])
    obtain ⟨_, _, _, _, _, blank, feed⟩ := not_sign_of_ident ident
    rw [nesting_after_ident _ _ _ ident, blank, feed] at stepped
    refine ⟨b', runs, ?_⟩
    rw [stepped]
    constructor
    · rw [passes.nesting, abreast.nesting]
    · exact passes.previous
    · rw [has]
      exact (Bool.or_true _).symm
    · have untold : (w.visitAt g c rest).telling = false := by
        unfold Walk.visitAt Visit.telling
        rw [cursor, ident]
        simp only [none]
        rfl
      rw [passes.seen, abreast.seen]
      exact congrArg _ (List.filter_cons_of_neg (by rw [untold]; exact Bool.false_ne_true)).symm
    · intro x member
      rcases passes.read x member with old | found
      · exact abreast.read x old
      · exact found

theorem loop_code_word {t post : List Char} (split : s = pre ++ c :: t ++ post)
    (bounded : g.blockWords.isSome = true → ∀ d ∈ post.head?, isIdentChar d = false)
    (cursor : w.cursor = ⟨size pre, pre.getLast?, c :: t ++ post⟩)
    (starts : (Walk.wordAt g pre.getLast? c (t ++ post)).isSome = true) (abreast : Abreast s b w) :
    ∃ b', (∀ fuel, loop (codeStep g s (size (pre ++ c :: t))) (fuel + 1) (size pre, b) =
        loop (codeStep g s (size (pre ++ c :: t))) fuel (size (pre ++ c :: t.takeWhile isIdentChar), b')) ∧
      Abreast s b' (w.steps g (c :: t.takeWhile isIdentChar).length) := by
  obtain ⟨hasWords, _⟩ := word_at_some starts
  obtain ⟨words, wordsEq⟩ := Option.isSome_iff_exists.mp hasWords
  obtain ⟨b', passes, next⟩ := pass_word_spec wordsEq split (bounded hasWords) cursor starts abreast
  have positive := Char.utf8Size_pos c
  have whole : s = pre ++ c :: (t ++ post) := by rw [split]; simp
  have step : codeStep g s (size (pre ++ c :: t)) (size pre, b) =
      .ok (.inl (size (pre ++ c :: t.takeWhile isIdentChar), b')) := by
    rw [codeStep, if_pos (by rw [size_append, size_cons]; omega), byte_at_first whole, ok_bind, starts_word_spec whole, starts,
      ok_bind, wordsEq]
    simp only [if_true, passes]
    rfl
  exact ⟨b', loop_next step, next⟩

theorem code_loop {post : List Char} (t : List Char) (fuel : Nat) (pre : List Char) {b : ByteWalk} {w : Walk}
    (split : s = pre ++ t ++ post) (bounded : g.blockWords.isSome = true → ∀ d ∈ post.head?, isIdentChar d = false)
    (cursor : w.cursor = ⟨size pre, pre.getLast?, t ++ post⟩) (abreast : Abreast s b w) (enough : size t < fuel) :
    ∃ b', loop (codeStep g s (size (pre ++ t))) fuel (size pre, b) = .ok b' ∧ Abreast s b' (w.steps g t.length) := by
  induction count : t.length using Nat.strongRecOn generalizing t fuel pre b w with
  | ind count ih =>
  subst count
  cases t with
  | nil =>
    obtain ⟨fuel, rfl⟩ := Nat.exists_eq_add_one.mpr (Nat.zero_lt_of_lt enough)
    have finished : codeStep g s (size (pre ++ [])) (size pre, b) = .ok (.inr b) := by
      rw [codeStep, List.append_nil, if_neg (Nat.lt_irrefl _)]
      rfl
    exact ⟨b, loop_done finished fuel, abreast⟩
  | cons c tail =>
    have positive := Char.utf8Size_pos c
    rw [size_cons] at enough
    cases starts : Walk.wordAt g pre.getLast? c (tail ++ post) with
    | none =>
      obtain ⟨b', runs, next⟩ := loop_code_char (size (pre ++ c :: tail)) (by rw [split]; simp)
        (by rw [size_append, size_cons]; omega) cursor starts abreast
      have moved := steps_cursor (g := g) pre (tail ++ post) [c] cursor
      obtain ⟨b'', runs', final⟩ := ih tail.length (Nat.lt_succ_self _) tail (fuel - c.utf8Size) (pre ++ [c])
        (by rw [split]; simp) moved next (by omega) rfl
      refine ⟨b'', ?_, final⟩
      have here := runs (fuel - c.utf8Size)
      rw [Nat.sub_add_cancel (by omega)] at here
      rw [List.append_assoc, List.singleton_append] at runs'
      rw [here, runs']
    | some word =>
      obtain ⟨b', runs, next⟩ := loop_code_word split bounded cursor (by rw [starts]; rfl) abreast
      have parts := List.takeWhile_append_dropWhile (p := isIdentChar) (l := tail)
      generalize tail.takeWhile isIdentChar = u at parts runs next
      generalize tail.dropWhile isIdentChar = after at parts
      have sizes := congrArg size parts
      rw [size_append] at sizes
      have lengths : (c :: u).length + after.length = (c :: tail).length := by rw [← List.length_append, List.cons_append, parts]
      have moved := steps_cursor (g := g) pre (after ++ post) (c :: u) (by rw [cursor, ← parts]; simp)
      obtain ⟨fuel, rfl⟩ := Nat.exists_eq_add_one.mpr (show 0 < fuel by omega)
      obtain ⟨b'', runs', final⟩ := ih after.length (by rw [← lengths, List.length_cons]; omega) after fuel (pre ++ c :: u)
        (by rw [split, ← parts]; simp) moved next (by omega) rfl
      rw [List.append_assoc, List.cons_append, parts] at runs'
      rw [← steps_add, lengths] at final
      exact ⟨b'', (runs fuel).trans runs', final⟩

end

section

variable {g : Grammar}

theorem literal_breaks (ascii : g.InAscii) (words : g.blockWords.isSome = true) {x : Context} {c : Char}
    {rest : List Char} {l : Literal} (found : x.literal? g (c :: rest) = some l) : isIdentChar c = false := by
  have opening : ∀ marker ∈ g.openings, marker ≠ [] → marker.isPrefixOf (c :: rest) = true → isIdentChar c = false := by
    intro marker member nonempty stands
    obtain ⟨d, more, rfl⟩ := List.exists_cons_of_ne_nil nonempty
    rw [List.isPrefixOf_cons_cons, Bool.and_eq_true, beq_iff_eq] at stands
    rw [← stands.1]
    exact ascii.breaks words (d :: more) member d rfl
  rcases Context.literal_cases found with ⟨begins, _⟩ | ⟨_, style, quote, _⟩ | ⟨_, _, slash⟩
  · rw [Grammar.beginsComment, Bool.or_eq_true, List.any_eq_true, List.any_eq_true] at begins
    rcases begins with ⟨marker, member, stands⟩ | ⟨markers, member, stands⟩
    · exact opening marker (List.mem_append_left _ (List.mem_append_left _ member)) (ascii.line marker member).1 stands
    · exact opening markers.1 (List.mem_append_left _ (List.mem_append_right _ (List.mem_map_of_mem member)))
        (ascii.block markers member).1.1 stands
  · have member := List.mem_of_find?_eq_some quote
    have stands := List.find?_some quote
    rw [Bool.and_eq_true] at stands
    exact opening style.opening (List.mem_append_right _ (List.mem_map_of_mem member)) (ascii.quote style member).1.1 stands.1
  · obtain ⟨_, _, same, _⟩ := Context.slash_some slash
    rw [(List.cons.inj same).1]
    decide

theorem head_of_mem_tokens (ascii : g.InAscii) {x : Context} {s : List Char} {l : Literal} {text : List Char}
    (member : Token.literal l text ∈ tokensFrom g x s) :
    ∃ c rest, text = c :: rest ∧ (g.blockWords.isSome = true → isIdentChar c = false) := by
  obtain ⟨y, c, rest, found, same⟩ := literal_of_mem_tokens member
  exact ⟨c, _, same, fun words => literal_breaks ascii words found⟩

variable {s : List Char} {b : ByteWalk} {w : Walk}

theorem pass_code_part {pre code post : List Char} (split : s = pre ++ code ++ post)
    (bounded : g.blockWords.isSome = true → ∀ d ∈ post.head?, isIdentChar d = false) (here : w.At pre (code ++ post))
    (abreast : Abreast s b w) :
    ∃ b', ((Segment.ofCode (size pre) code.reverse).map Segment.span).foldlM (passSpan g s) b = .ok b' ∧
      Abreast s b' (w.across g (code.map .code)) := by
  cases code with
  | nil => exact ⟨b, rfl, abreast⟩
  | cons c tail =>
    obtain ⟨b', runs, final⟩ := code_loop (c :: tail) ((bytes s).length + 1) pre split bounded here abreast (by
      rw [length_bytes, split, size_append, size_append]
      omega)
    rw [Walk.steps_eq] at final
    have single : Segment.ofCode (size pre) (c :: tail).reverse = [⟨.code, size pre, c :: tail, 0, 0⟩] := by
      rw [Segment.ofCode, List.isEmpty_reverse, List.reverse_reverse]
      rfl
    have passed : passSpan g s b (Segment.span ⟨.code, size pre, c :: tail, 0, 0⟩) = .ok b' := by
      rw [size_append] at runs
      exact runs
    rw [single, List.map_singleton, List.foldlM_cons, passed]
    exact ⟨b', rfl, final⟩

theorem pass_literal {pre text post : List Char} {l : Literal} (kind : l.kind ≠ .code) (nonempty : text ≠ [])
    (split : s = pre ++ text ++ post) (here : w.At pre (text ++ post)) (abreast : Abreast s b w) :
    ∃ b', passSpan g s b (Segment.ofLiteral (size pre) l text).span = .ok b' ∧
      Abreast s b' (w.passToken g (.literal l text)) := by
  have moved : w.cursor.advance text.length = ⟨size pre + size text, text.getLast?.or pre.getLast?, post⟩ := by
    rw [here, Cursor.advance_append]
  -- The last byte of the literal is that of its last character.
  obtain ⟨front, c, rfl⟩ := List.eq_nil_or_concat text |>.resolve_left nonempty
  rw [List.concat_eq_append] at *
  have room : minus (size pre + size (front ++ [c])) 1 = .ok (size (pre ++ front) + c.utf8Size - 1) := by
    have positive := Char.utf8Size_pos c
    rw [size_append, size_append, size_singleton, ← Nat.add_assoc, minus_of_le (by omega)]
  have last : byteAt (bytes s) (size (pre ++ front) + c.utf8Size - 1) = .ok (lastByte c) := by
    rw [split, ← byte_at_last (pre ++ front) c post]
    simp only [List.append_assoc, List.singleton_append]
  have part : slice s (size pre) (size pre + size (front ++ [c])) = .ok (front ++ [c]) := slice_of_parts split rfl rfl
  rw [List.getLast?_concat, Option.some_or] at moved
  unfold passSpan Walk.passToken Walk.passOver
  simp only [Segment.ofLiteral, Segment.span, Segment.stop]
  cases kindEq : l.kind with
  | code => exact absurd kindEq kind
  | quoted =>
    refine ⟨{ b with previous := some (lastByte c), lineHasCode := true }, by simp only [room, ok_bind, last]; rfl, ?_⟩
    rw [moved]
    exact ⟨abreast.nesting, rfl, rfl, abreast.seen, abreast.read⟩
  | regex =>
    refine ⟨{ b with previous := some (lastByte c), lineHasCode := true }, by simp only [room, ok_bind, last]; rfl, ?_⟩
    rw [moved]
    exact ⟨abreast.nesting, rfl, rfl, abreast.seen, abreast.read⟩
  | comment =>
    refine ⟨_, by simp only [part, ok_bind]; rfl, ?_⟩
    exact ⟨abreast.nesting, abreast.previous, congrArg (· && _) abreast.lineHasCode, abreast.seen, abreast.read⟩

theorem at_across_code {pre code post : List Char} (here : w.At pre (code ++ post)) :
    (w.across g (code.map .code)).At (pre ++ code) post := by
  rw [← Walk.steps_eq]
  exact steps_cursor pre post code here

theorem pass_spans (tokens : List Token) (code : List Char) {pre : List Char}
    (split : s = pre ++ (code.reverse ++ flatten tokens)) (here : w.At pre (code.reverse ++ flatten tokens))
    (literals : ∀ l text, Token.literal l text ∈ tokens →
      l.kind ≠ .code ∧ ∃ c rest, text = c :: rest ∧ (g.blockWords.isSome = true → isIdentChar c = false))
    (abreast : Abreast s b w) :
    ∃ b', ((Segment.ofTokens (size pre) code tokens).map Segment.span).foldlM (passSpan g s) b = .ok b' ∧
      Abreast s b' (w.across g (code.reverse.map .code ++ tokens)) := by
  induction tokens generalizing code pre b w with
  | nil =>
    have part := @pass_code_part g s b w pre code.reverse [] (by rw [split, List.append_assoc]; rfl) (by simp) here abreast
    rw [List.reverse_reverse] at part
    rwa [Segment.ofTokens, List.append_nil]
  | cons t rest ih =>
    have others := fun l text member => literals l text (List.mem_cons_of_mem t member)
    cases t with
    | code c =>
      have more : (c :: code).reverse ++ flatten rest = code.reverse ++ flatten (.code c :: rest) := by
        rw [List.reverse_cons, List.append_assoc]
        rfl
      obtain ⟨b', runs, final⟩ := ih (c :: code) (by rw [split, more]) (by rwa [more]) others abreast
      refine ⟨b', runs, ?_⟩
      rwa [List.reverse_cons, List.map_append, List.append_assoc] at final
    | literal l text =>
      obtain ⟨kind, c, body, textEq, breaks⟩ := literals l text List.mem_cons_self
      have flat : flatten (.literal l text :: rest) = text ++ flatten rest := rfl
      rw [flat] at split here
      obtain ⟨b₁, runs₁, abreast₁⟩ := pass_code_part (show s = pre ++ code.reverse ++ _ by rw [split, List.append_assoc])
        (fun words d member => by
          rw [textEq, List.cons_append, List.head?_cons, Option.mem_some_iff] at member
          exact member ▸ breaks words) here abreast
      have here₁ := at_across_code (g := g) here
      obtain ⟨b₂, runs₂, abreast₂⟩ := pass_literal (g := g) kind (by rw [textEq]; exact List.cons_ne_nil c body)
        (by rw [split]; simp only [List.append_assoc]) here₁ abreast₁
      have here₂ := Walk.At.literal (g := g) here₁ kind
      obtain ⟨b', runs, final⟩ := ih [] (by rw [split]; simp) here₂ others abreast₂
      have places : size (pre ++ code.reverse) = size pre + size code := by rw [size_append, Segment.size_reverse]
      rw [List.reverse_reverse] at runs₁
      rw [places] at runs₂
      rw [size_append, places] at runs
      refine ⟨b', ?_, ?_⟩
      · rw [Segment.ofTokens, List.map_append, List.foldlM_append, runs₁, ok_bind, List.map_cons, List.foldlM_cons,
          runs₂, ok_bind]
        exact runs
      · rw [Walk.across_append, Walk.across_cons]
        exact final

theorem code_bytes_spec (ascii : g.InAscii) (s : List Char) :
    ∃ seen, codeBytes g s = .ok seen ∧
      seen.filter CodeByte.telling = ((visits g s).filter Visit.telling).map Visit.sight ∧
      ∀ x ∈ seen, (bytes s)[x.pos]? = some x.byte := by
  let w : Walk := { cursor := Cursor.start s }
  have start : Abreast s {} w := ⟨rfl, rfl, rfl, rfl, by simp⟩
  have whole : [].reverse ++ flatten (tokens g s) = s := by
    rw [tokens, flatten_tokens_from]
    rfl
  obtain ⟨b, runs, final⟩ := pass_spans (tokens g s) [] (show s = [] ++ _ by rw [whole]; rfl) (by rw [whole]; rfl)
    (fun l text member => ⟨kind_of_mem_tokens member, head_of_mem_tokens ascii member⟩) start
  refine ⟨b.seen.reverse, ?_, ?_, fun x member => final.read x (List.mem_reverse.mp member)⟩
  · rw [codeBytes, segment_eq ascii, ok_bind, segments_eq]
    rw [size_nil] at runs
    rw [runs]
    rfl
  · replace final : Abreast s b (w.across g (tokens g s)) := final
    have outer : ∀ v : Visit, v.isInner = true → v.telling = false := by
      intro v inner
      rw [Visit.isInner, Bool.and_eq_true, Option.isNone_iff_eq_none] at inner
      rw [Visit.telling, inner.1, inner.2]
      rfl
    rw [List.filter_reverse, final.seen, filter_visits outer, Walk.seen, List.filter_reverse, List.map_reverse]
    rfl

end

section

variable {g : Grammar} {s : List Char} {accepts : Visit → Bool} {stop : CodeByte → Checked Bool}

theorem find_filter {α : Type} {p q : α → Bool} {list : List α} (only : ∀ a ∈ list, q a = false → p a = false) :
    list.find? p = (list.filter q).find? p := by
  rw [List.find?_filter]
  refine find_congr fun a member => ?_
  cases chosen : q a with
  | false => rw [only a member chosen]; simp
  | true => simp

theorem find_at_depth_zero_spec (ascii : g.InAscii)
    (passes : ∀ x : CodeByte, x.telling = false → (bytes s)[x.pos]? = some x.byte → stop x = .ok false)
    (checks : ∀ v ∈ visits g s, v.telling = true → stop v.sight = .ok (accepts v))
    (ignores : ∀ v : Visit, v.telling = false → accepts v = false) :
    findAtDepthZero g s stop = .ok ((findOutside g s accepts).map (·.offset)) := by
  obtain ⟨seen, runs, told, read⟩ := code_bytes_spec ascii s
  let test : CodeByte → Checked Bool := fun x => if x.depth = 0 then stop x else return false
  let answer : CodeByte → Bool := fun x => (test x).toOption.getD false
  have sights : ∀ v ∈ visits g s, v.telling = true → test v.sight = .ok (v.depth == 0 && accepts v) := by
    intro v member telling
    by_cases outside : v.depth = 0
    · rw [beq_iff_eq.mpr outside, Bool.true_and, ← checks v member telling]
      exact if_pos outside
    · rw [beq_eq_false_iff_ne.mpr outside, Bool.false_and]
      exact if_neg outside
  have silent : ∀ x ∈ seen, x.telling = false → test x = .ok false := by
    intro x member untold
    by_cases outside : x.depth = 0
    · exact (if_pos outside).trans (passes x untold (read x member))
    · exact if_neg outside
  have answers : ∀ x ∈ seen, test x = .ok (answer x) := by
    intro x member
    cases telling : x.telling with
    | false =>
      unfold answer
      rw [silent x member telling]
      rfl
    | true =>
      have among : x ∈ seen.filter CodeByte.telling := List.mem_filter.mpr ⟨member, telling⟩
      rw [told] at among
      obtain ⟨v, chosen, rfl⟩ := List.mem_map.mp among
      obtain ⟨visited, telling⟩ := List.mem_filter.mp chosen
      unfold answer
      rw [sights v visited telling]
      rfl
  have found : seen.find? answer = ((findOutside g s accepts).map Visit.sight) := by
    rw [find_filter (q := CodeByte.telling) fun x member untold => ?_, told, List.find?_map]
    · refine congrArg _ ?_
      rw [findOutside, find_filter (p := fun v : Visit => v.depth == 0 && accepts v) (q := Visit.telling) fun v _ untold => ?_]
      · refine find_congr fun v member => ?_
        obtain ⟨visited, telling⟩ := List.mem_filter.mp member
        simp only [Function.comp, answer, sights v visited telling]
        rfl
      · rw [ignores v untold, Bool.and_false]
    · simp only [answer, silent x member untold]
      rfl
  rw [findAtDepthZero, runs, ok_bind, find_m_of_ok answers, ok_bind, found, Option.map_map]
  rfl

theorem matching_close_spec (ascii : g.InAscii) (s : List Char) {closing : Char} (small : closing.toNat < 128) :
    matchingClose g s closing = .ok ((SnippetReview.matchingClose g s closing).map (·.offset)) := by
  obtain ⟨seen, runs, told, read⟩ := code_bytes_spec ascii s
  have byte : ∀ v : Visit, isClosing (charOf v.sight.byte) = isClosing v.char := fun v => test_first closing_test v.char
  have ident : ∀ c, isIdentChar c = true → isClosing c = false := fun c word => (not_sign_of_ident word).2.1
  have found : seen.find? (fun b => b.depth == 0 && isClosing (charOf b.byte)) =
      (findOutside g s fun v => isClosing v.char).map Visit.sight := by
    rw [find_filter (q := CodeByte.telling) fun x _ untold => ?_, told, List.find?_map]
    · refine congrArg _ ?_
      rw [findOutside, find_filter (p := fun v : Visit => v.depth == 0 && isClosing v.char) (q := Visit.telling)
        fun v _ untold => ?_]
      · refine find_congr fun v _ => ?_
        simp only [Function.comp, byte]
        rfl
      · rw [Visit.telling, Bool.or_eq_false_iff, Bool.not_eq_false'] at untold
        rw [ident _ untold.2, Bool.and_false]
    · rw [CodeByte.telling, Bool.or_eq_false_iff, Bool.not_eq_false'] at untold
      rw [ident _ untold.2, Bool.and_false]
  rw [matchingClose, runs, ok_bind, found, SnippetReview.matchingClose]
  cases findOutside g s fun v => isClosing v.char with
  | none => rfl
  | some v =>
    have same : (charOf v.sight.byte == closing) = (v.char == closing) := first_is small v.char
    simp only [Option.map_some, same, Option.filter_some]
    cases v.char == closing <;> rfl

end

end Bytewise

end SnippetReview
