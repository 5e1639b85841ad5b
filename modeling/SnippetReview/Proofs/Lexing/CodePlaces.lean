import SnippetReview.Proofs.Lexing.Literal
import SnippetReview.Proofs.Lexing.Partition
import SnippetReview.Proofs.Text.LineStarts
import SnippetReview.Snippet.Block

set_option autoImplicit false

namespace SnippetReview

open Text

def InCode (g : Grammar) (text : List Char) (offset : Nat) : Prop :=
  ∃ s ∈ segments g text, s.kind = .code ∧ s.start ≤ offset ∧ offset < s.stop

instance (g : Grammar) (text : List Char) (offset : Nat) : Decidable (InCode g text offset) :=
  inferInstanceAs (Decidable (∃ s ∈ segments g text, s.kind = .code ∧ s.start ≤ offset ∧ offset < s.stop))

def Token.isCode : Token → Bool
  | code _ => true
  | literal _ _ => false

def codeAt : List Token → Nat → Bool
  | [], _ => false
  | t :: rest, offset => if offset < size t.text then t.isCode else codeAt rest (offset - size t.text)

section

variable {first second : List Token} {offset : Nat}

theorem flatten_cons (t : Token) (rest : List Token) : flatten (t :: rest) = t.text ++ flatten rest := rfl

theorem flatten_append (first second : List Token) : flatten (first ++ second) = flatten first ++ flatten second :=
  List.flatMap_append

theorem code_at_front (inside : offset < size (flatten first)) : codeAt (first ++ second) offset = codeAt first offset := by
  induction first generalizing offset with
  | nil => exact absurd inside (Nat.not_lt_zero offset)
  | cons t rest ih =>
    rw [flatten_cons, size_append] at inside
    rw [List.cons_append, codeAt, codeAt]
    by_cases here : offset < size t.text
    · rw [if_pos here, if_pos here]
    · rw [if_neg here, if_neg here, ih (by omega)]

theorem code_at_behind (first second : List Token) (offset : Nat) :
    codeAt (first ++ second) (size (flatten first) + offset) = codeAt second offset := by
  induction first with
  | nil => rw [List.nil_append, flatten, List.flatMap_nil, size_nil, Nat.zero_add]
  | cons t rest ih =>
    rw [List.cons_append, codeAt, if_neg (by rw [flatten_cons, size_append]; omega), flatten_cons, size_append,
      Nat.add_assoc, Nat.add_sub_cancel_left, ih]

theorem code_at_end {t : Token} (filled : t.IsFilled) (front rest : List Token) :
    codeAt (front ++ t :: rest) (size (flatten front ++ t.text) - 1) = t.isCode := by
  have positive : 0 < size t.text := Nat.pos_of_ne_zero fun zero => filled.nonempty (size_eq_zero_iff.mp zero)
  rw [size_append, Nat.add_sub_assoc positive, code_at_behind, codeAt, if_pos (Nat.sub_lt positive Nat.one_pos)]

theorem code_token_at {tokens : List Token} (code : codeAt tokens offset = true) :
    ∃ done c rest, tokens = done ++ .code c :: rest ∧ size (flatten done) ≤ offset ∧
      offset < size (flatten done) + c.utf8Size := by
  induction tokens generalizing offset with
  | nil => contradiction
  | cons t rest ih =>
    rw [codeAt] at code
    by_cases here : offset < size t.text
    · rw [if_pos here] at code
      cases t with
      | code c =>
        refine ⟨[], c, rest, rfl, Nat.zero_le offset, ?_⟩
        rw [show size (Token.code c).text = c.utf8Size from size_singleton c] at here
        rwa [show flatten [] = [] from rfl, size_nil, Nat.zero_add]
      | literal l text => contradiction
    · rw [if_neg here] at code
      obtain ⟨done, c, later, split, low, high⟩ := ih code
      refine ⟨t :: done, c, later, by rw [split]; rfl, ?_, ?_⟩ <;> rw [flatten_cons, size_append] <;> omega

end

namespace Segment

theorem mem_of_code {start offset : Nat} {code : List Char} (low : start ≤ offset) :
    (∃ s ∈ ofCode start code, s.kind = .code ∧ s.start ≤ offset ∧ offset < s.stop) ↔ offset < start + size code := by
  cases code with
  | nil =>
    simp only [ofCode, List.isEmpty_nil, if_true, List.not_mem_nil, false_and, exists_false, size_nil, Nat.add_zero, false_iff]
    omega
  | cons c code =>
    simp only [ofCode, List.isEmpty_cons, Bool.false_eq_true, if_false, List.mem_singleton, exists_eq_left, true_and, stop,
      size_reverse]
    exact and_iff_right low

theorem code_of_tokens {start offset : Nat} {code : List Char} {tokens : List Token} (low : start ≤ offset)
    (kinds : ∀ l text, Token.literal l text ∈ tokens → l.kind ≠ .code) :
    (∃ s ∈ ofTokens start code tokens, s.kind = .code ∧ s.start ≤ offset ∧ offset < s.stop) ↔
      offset < start + size code ∨ (start + size code ≤ offset ∧ codeAt tokens (offset - (start + size code)) = true) := by
  induction tokens generalizing start code with
  | nil =>
    rw [ofTokens, mem_of_code low]
    simp [codeAt]
  | cons t rest ih =>
    have kinds' : ∀ l text, Token.literal l text ∈ rest → l.kind ≠ .code :=
      fun l text member => kinds l text (List.mem_cons_of_mem t member)
    cases t with
    | code c =>
      have next : start + size (c :: code) = start + size code + c.utf8Size := by
        rw [size_cons]
        omega
      rw [ofTokens, ih low kinds', next, codeAt, show size (Token.code c).text = c.utf8Size from size_singleton c]
      by_cases before : offset < start + size code
      · simp only [before, true_or, iff_true]
        omega
      · by_cases here : offset < start + size code + c.utf8Size
        · have within : offset - (start + size code) < c.utf8Size := by omega
          simp only [here, within, if_true, true_or, Token.isCode, and_true, true_iff]
          omega
        · have beyond : ¬ offset - (start + size code) < c.utf8Size := by omega
          have rest' : offset - (start + size code) - c.utf8Size = offset - (start + size code + c.utf8Size) := by omega
          simp only [before, here, beyond, if_false, false_or, rest']
          exact and_congr_left fun _ => by omega
    | literal l text =>
      have noCode := kinds l text List.mem_cons_self
      rw [ofTokens, codeAt, show (Token.literal l text).text = text from rfl]
      simp only [List.mem_append, List.mem_cons, or_and_right, exists_or, exists_eq_left]
      rw [mem_of_code low]
      refine or_congr_right ?_
      have other : (ofLiteral (start + size code) l text).kind ≠ .code := noCode
      simp only [other, false_and, false_or]
      by_cases behind : start + size code + size text ≤ offset
      · have beyond : ¬ offset - (start + size code) < size text := by omega
        rw [ih behind kinds', size_nil, Nat.add_zero, if_neg beyond, Nat.sub_sub]
        constructor
        · rintro (before | ⟨_, code⟩)
          · omega
          · exact ⟨by omega, code⟩
        · exact fun code => .inr ⟨behind, code.2⟩
      · -- The segments behind the literal start behind the offset.
        constructor
        · rintro ⟨s, member, _, first, _⟩
          have behind' := start_of_contiguous (contiguous_of_tokens (start + size code + size text) [] rest) member
          omega
        · rintro ⟨_, code⟩
          rw [if_pos (by omega)] at code
          contradiction

end Segment

theorem in_code_iff (g : Grammar) (text : List Char) (offset : Nat) :
    InCode g text offset ↔ codeAt (tokens g text) offset = true := by
  have read := @Segment.code_of_tokens 0 offset [] (tokens g text) (Nat.zero_le offset)
    fun l part member => kind_of_mem_tokens member
  rw [← segments_eq, size_nil, Nat.add_zero, Nat.sub_zero] at read
  unfold InCode
  simpa using read

theorem spans_ordered {start : Nat} {segments : List Segment} (contiguous : Contiguous start segments) :
    segments.Pairwise fun earlier later => earlier.start ≤ later.start := by
  induction segments generalizing start with
  | nil => exact .nil
  | cons s rest ih =>
    refine .cons (fun later member => ?_) (ih contiguous.2)
    have behind := start_of_contiguous contiguous.2 member
    have here := contiguous.1
    omega

theorem CodeMap.in_code_of_is_code {g : Grammar} {text : List Char} {offset : Nat}
    (code : (ofText g text).isCode offset = true) : InCode g text offset := by
  let spans : List (Nat × Nat) := ((segments g text).filter fun s => s.kind = .code).map fun s => (s.start, s.stop)
  let early : Nat × Nat → Bool := fun span => decide (span.1 ≤ offset)
  have sorted : spans.Pairwise fun a b => a.1 ≤ b.1 :=
    List.pairwise_map.mpr ((spans_ordered (contiguous_segments g text)).filter _)
  have parts : (ofText g text).code.toList = spans.takeWhile early ++ spans.dropWhile early :=
    (List.takeWhile_append_dropWhile (p := early) (l := spans)).symm
  have later : ∀ span ∈ spans.dropWhile early, early span = false := by
    intro span member
    cases shape : spans.dropWhile early with
    | nil =>
      rw [shape] at member
      contradiction
    | cons first rest =>
      have stops := List.head?_dropWhile_not early spans
      have order := sorted.sublist (List.dropWhile_sublist early)
      rw [shape] at stops order member
      have first' : early first = false := by simpa using stops
      rcases List.mem_cons.mp member with rfl | behind
      · exact first'
      · have above := (List.pairwise_cons.mp order).1 span behind
        simp only [early, decide_eq_false_iff_not] at first' ⊢
        omega
  have boundary : Search.boundary early (ofText g text).code = (spans.takeWhile early).length :=
    Search.boundary_append parts (List.all_eq_true.mp List.all_takeWhile) later
  unfold isCode at code
  rw [show Search.boundary (fun span : Nat × Nat => decide (span.1 ≤ offset)) (ofText g text).code = _ from boundary] at code
  -- The segment looked up is the last one that starts at or before the offset.
  cases count : (spans.takeWhile early).length with
  | zero =>
    rw [count] at code
    contradiction
  | succ n =>
    rw [count] at code
    have inside : n < (spans.takeWhile early).length := by omega
    have found : (ofText g text).code[n]? = some (spans.takeWhile early)[n] := by
      rw [← Array.getElem?_toList, parts, List.getElem?_append_left inside, List.getElem?_eq_getElem inside]
    simp only [found, Option.map_some, Option.getD_some, decide_eq_true_eq] at code
    have member : (spans.takeWhile early)[n] ∈ spans.takeWhile early := List.getElem_mem inside
    have begins : early (spans.takeWhile early)[n] = true := List.all_eq_true.mp List.all_takeWhile _ member
    obtain ⟨s, among, same⟩ := List.mem_map.mp (List.takeWhile_sublist early |>.subset member)
    obtain ⟨among, kind⟩ := List.mem_filter.mp among
    rw [← same] at code begins
    exact ⟨s, among, by simpa using kind, by simpa [early] using begins, code⟩

end SnippetReview
