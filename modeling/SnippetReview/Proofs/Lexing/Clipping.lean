import SnippetReview.Proofs.Bytewise.Segments
import SnippetReview.Proofs.Lexing.Parting

set_option autoImplicit false

namespace SnippetReview

open Text

namespace Span

-- The part of a segment between two places. A delimiter loses what is cut off from it.
def clip (start stop : Nat) (x : Span) : Option Span :=
  if max x.start start < min x.stop stop then
    some ⟨x.kind, max x.start start, min x.stop stop, x.opening - (start - x.start), x.closing - (x.stop - stop)⟩
  else none

def shift (offset : Nat) (x : Span) : Span := { x with start := offset + x.start, stop := offset + x.stop }

variable {start stop : Nat} {x : Span}

theorem clip_outside (outside : x.stop ≤ start ∨ stop ≤ x.start) : x.clip start stop = none := by
  unfold clip
  rw [if_neg]
  omega

theorem clip_inside (low : start ≤ x.start) (high : x.stop ≤ stop) (nonempty : x.start < x.stop) :
    x.clip start stop = some x := by
  unfold clip
  rw [if_pos (by omega), Nat.max_eq_left low, Nat.min_eq_left high, Nat.sub_eq_zero_of_le low,
    Nat.sub_eq_zero_of_le high]
  rfl

theorem clip_end (low : start ≤ x.start) (inside : x.start < stop) (high : stop ≤ x.stop) (unclosed : x.closing = 0) :
    x.clip start stop = some { x with stop } := by
  unfold clip
  rw [if_pos (by omega), Nat.max_eq_left low, Nat.min_eq_right high, Nat.sub_eq_zero_of_le low, unclosed, Nat.zero_sub]
  rfl

end Span

namespace Segment

variable {start stop : Nat}

def clip (start stop : Nat) (x : Segment) : Option Span := x.span.clip start stop

theorem span_code (offset : Nat) (text : List Char) :
    (⟨.code, offset, text.reverse, 0, 0⟩ : Segment).span = ⟨.code, offset, offset + size text, 0, 0⟩ := by
  rw [span, Segment.stop, size_reverse]

theorem clip_of_code (offset : Nat) (code : List Char) : (ofCode offset code).filterMap (clip start stop) =
    if max offset start < min (offset + size code) stop then
      [⟨.code, max offset start, min (offset + size code) stop, 0, 0⟩]
    else [] := by
  cases code with
  | nil =>
    rw [if_neg (by rw [size_nil]; omega)]
    rfl
  | cons c code =>
    rw [ofCode, List.isEmpty_cons, if_neg Bool.false_ne_true, List.filterMap_cons, List.filterMap_nil, clip, span_code, Span.clip]
    split <;> simp_all

theorem clip_behind {offset : Nat} {xs : List Segment} (contiguous : Contiguous offset xs) (behind : stop ≤ offset) :
    xs.filterMap (clip start stop) = [] := by
  rw [List.filterMap_eq_nil_iff]
  exact fun x member => Span.clip_outside (.inr (Nat.le_trans behind (start_of_contiguous contiguous member)))

theorem clip_from {offset : Nat} {code before : List Char} (here : offset + size before = start) (tokens : List Token) :
    (ofTokens offset (code ++ before) tokens).filterMap (clip start stop) =
      (ofTokens start code tokens).filterMap (clip start stop) := by
  have part : ∀ code, (ofCode offset (code ++ before)).filterMap (clip start stop) =
      (ofCode start code).filterMap (clip start stop) := by
    intro code
    rw [clip_of_code, clip_of_code, size_append, Nat.max_eq_right (by omega), Nat.max_self,
      show offset + (size code + size before) = start + size code by omega]
  induction tokens generalizing code with
  | nil => exact part code
  | cons t rest ih =>
    cases t with
    | code c =>
      rw [ofTokens, ofTokens, ← List.cons_append]
      exact ih
    | literal l text =>
      rw [ofTokens, ofTokens, List.filterMap_append, List.filterMap_append, part, size_append,
        show offset + (size code + size before) = start + size code by omega]

theorem clip_front {offset : Nat} {code : List Char} {done : List Token} (here : offset + size code + size (flatten done) = start)
    (tokens : List Token) :
    (ofTokens offset code (done ++ tokens)).filterMap (clip start stop) =
      (ofTokens start [] tokens).filterMap (clip start stop) := by
  induction done generalizing offset code with
  | nil =>
    rw [show flatten [] = [] from rfl, size_nil, Nat.add_zero] at here
    rw [List.nil_append, ← List.nil_append code]
    exact clip_from here tokens
  | cons t done ih =>
    rw [flatten_cons, size_append] at here
    cases t with
    | code c =>
      rw [List.cons_append, ofTokens]
      refine ih ?_
      rw [Token.text, size_singleton] at here
      rw [size_cons]
      omega
    | literal l text =>
      rw [Token.text] at here
      have literal : clip start stop (ofLiteral (offset + size code) l text) = none :=
        Span.clip_outside (.inl (by rw [ofLiteral, span, Segment.stop]; dsimp only; omega))
      rw [List.cons_append, ofTokens, List.filterMap_append, clip_of_code, if_neg (by omega), List.nil_append,
        List.filterMap_cons_none literal]
      refine ih ?_
      rw [size_nil]
      omega

theorem clip_up_to {offset : Nat} {code : List Char} (low : start ≤ offset) (here : offset + size code = stop)
    (beyond : List Char) (tokens : List Token) :
    (ofTokens offset (beyond ++ code) tokens).filterMap (clip start stop) = (ofCode offset code).map span := by
  have part : ∀ beyond, (ofCode offset (beyond ++ code)).filterMap (clip start stop) = (ofCode offset code).map span := by
    intro beyond
    rw [clip_of_code, size_append, Nat.max_eq_left low, Nat.min_eq_right (by omega)]
    cases code with
    | nil =>
      rw [size_nil] at here
      rw [if_neg (by omega)]
      rfl
    | cons c code =>
      have positive := Char.utf8Size_pos c
      rw [size_cons] at here
      rw [if_pos (by omega), ofCode, List.isEmpty_cons, if_neg Bool.false_ne_true, List.map_singleton, span_code, size_cons, here]
  induction tokens generalizing beyond with
  | nil => exact part beyond
  | cons t rest ih =>
    cases t with
    | code c => exact ih (c :: beyond)
    | literal l text =>
      -- A literal behind the code starts at the second place or further on.
      have behind : Contiguous (offset + size (beyond ++ code)) (ofLiteral (offset + size (beyond ++ code)) l text ::
          ofTokens (offset + size (beyond ++ code) + size text) [] rest) := ⟨rfl, contiguous_of_tokens _ [] rest⟩
      rw [ofTokens, List.filterMap_append, part, clip_behind behind (by rw [size_append]; omega), List.append_nil]

theorem clip_between {offset : Nat} {code : List Char} (low : start ≤ offset) (high : offset + size code ≤ stop) :
    (ofCode offset code).filterMap (clip start stop) = (ofCode offset code).map span := by
  cases code with
  | nil => rfl
  | cons c code =>
    have positive := Char.utf8Size_pos c
    rw [size_cons] at high
    rw [clip_of_code, size_cons, if_pos (by omega), ofCode, List.isEmpty_cons, if_neg Bool.false_ne_true, List.map_singleton,
      span_code, size_cons, Nat.max_eq_left low, Nat.min_eq_left high]

theorem of_tokens_map_code (offset : Nat) (code cs : List Char) (rest : List Token) :
    ofTokens offset code (cs.map .code ++ rest) = ofTokens offset (cs.reverse ++ code) rest := by
  induction cs generalizing code with
  | nil => rfl
  | cons c cs ih =>
    rw [List.map_cons, List.cons_append, ofTokens, ih, List.reverse_cons, List.append_assoc, List.singleton_append]

theorem clip_cut_off {blanks : List Char} {alone whole : List Token} (cut : CutOff blanks alone whole) {offset : Nat}
    {code : List Char} (low : start ≤ offset) (here : offset + size code + size (flatten alone) = stop) (rest : List Token) :
    (ofTokens offset code (whole ++ rest)).filterMap (clip start stop) = (ofTokens offset code alone).map span := by
  induction cut generalizing offset code with
  | code blanks =>
    -- The blanks go on the code that the text ends with, behind the second place.
    rw [of_tokens_map_code]
    exact clip_up_to low here _ rest
  | @cons t blanks alone whole filled _ ih =>
    rw [flatten_cons, size_append] at here
    cases t with
    | code c =>
      rw [Token.text, size_singleton] at here
      rw [List.cons_append, ofTokens, ofTokens]
      refine ih low ?_
      rw [size_cons]
      omega
    | literal l text =>
      rw [Token.text] at here
      have positive : 0 < size text := Nat.pos_of_ne_zero fun none => filled.2 (size_eq_zero_iff.mp none)
      have literal : clip start stop (ofLiteral (offset + size code) l text) = some (ofLiteral (offset + size code) l text).span := by
        apply Span.clip_inside
        · exact Nat.le_trans low (Nat.le_add_right offset (size code))
        · rw [ofLiteral, span, Segment.stop]
          dsimp only
          omega
        · exact Nat.lt_add_of_pos_right positive
      rw [List.cons_append, ofTokens, ofTokens, List.filterMap_append, List.map_append, clip_between low (by omega),
        List.filterMap_cons_some literal, List.map_cons, ih (by omega) (by rw [size_nil]; omega)]
  | @literal l l' text taken left filled kind opening unclosed unclosed' =>
    rw [show flatten [Token.literal l text] = text from List.append_nil text] at here
    have positive : 0 < size text := Nat.pos_of_ne_zero fun none => filled.2 (size_eq_zero_iff.mp none)
    -- The literal that goes on loses what it has taken in.
    have literal : clip start stop (ofLiteral (offset + size code) l' (text ++ taken)) =
        some (ofLiteral (offset + size code) l text).span := by
      rw [clip, Span.clip_end (Nat.le_trans low (Nat.le_add_right offset (size code))) (by rw [← here]; exact Nat.lt_add_of_pos_right positive)
        (by rw [ofLiteral, span, Segment.stop, size_append]; dsimp only; omega) unclosed', ← here]
      rw [ofLiteral, ofLiteral, span, span, kind, opening, unclosed, unclosed']
      rfl
    have behind : (ofTokens (offset + size code + size (text ++ taken)) [] (left.map .code ++ rest)).filterMap (clip start stop) = [] :=
      clip_behind (contiguous_of_tokens _ [] _) (by rw [size_append]; omega)
    rw [List.cons_append, ofTokens, ofTokens, List.filterMap_append, List.map_append, clip_between low (by omega),
      List.filterMap_cons_some literal, behind]
    rfl

theorem map_span_shift (base offset : Nat) (code : List Char) (tokens : List Token) :
    (ofTokens (base + offset) code tokens).map span = (ofTokens offset code tokens).map fun x => x.span.shift base := by
  have part : ∀ offset code, (ofCode (base + offset) code).map span = (ofCode offset code).map fun x => x.span.shift base := by
    intro offset code
    cases code with
    | nil => rfl
    | cons c code =>
      rw [ofCode, ofCode, List.isEmpty_cons, if_neg Bool.false_ne_true, if_neg Bool.false_ne_true, List.map_singleton,
        List.map_singleton, span_code, span_code, Span.shift, Nat.add_assoc]
  induction tokens generalizing offset code with
  | nil => exact part offset code
  | cons t rest ih =>
    cases t with
    | code c => exact ih offset (c :: code)
    | literal l text =>
      have literal : (ofLiteral (base + (offset + size code)) l text).span = (ofLiteral (offset + size code) l text).span.shift base := by
        rw [ofLiteral, ofLiteral, span, span, Segment.stop, Segment.stop, Span.shift, Nat.add_assoc base]
      rw [ofTokens, ofTokens, List.map_append, List.map_append, part, List.map_cons, List.map_cons, Nat.add_assoc, literal,
        Nat.add_assoc base, ih]

end Segment

end SnippetReview
