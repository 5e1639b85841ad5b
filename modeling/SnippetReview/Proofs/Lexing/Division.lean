import Mathlib.Data.List.Chain
import SnippetReview.Proofs.Bytewise.Extracting
import SnippetReview.Proofs.Lexing.CodePlaces

set_option autoImplicit false

namespace SnippetReview

open Text

def Adjoin : Nat → Nat → List Span → Prop
  | start, stop, [] => start = stop
  | start, stop, x :: rest => x.start = start ∧ start < x.stop ∧ Adjoin x.stop stop rest

structure Divides (text : List Char) (spans : List Span) : Prop where
  adjoin : Adjoin 0 (size text) spans
  boundaries : ∀ x ∈ spans, Bytewise.isBoundary text x.start = true ∧ Bytewise.isBoundary text x.stop = true
  slices : ∃ parts, spans.mapM (fun x => Bytewise.slice text x.start x.stop) = .ok parts ∧ parts.flatten = text
  delimited : ∀ x ∈ spans, x.start + x.opening + x.closing ≤ x.stop
  parted : spans.IsChain fun x y => ¬ (x.kind = .code ∧ y.kind = .code)

theorem Literal.delimiters_fit {g : Grammar} {x : Context} {s : List Char} {l : Literal} (found : x.literal? g s = some l) :
    l.opening + l.closing ≤ l.length := by
  rcases Context.literal_cases found with ⟨_, rfl⟩ | ⟨_, style, quote, rfl⟩ | ⟨_, _, slash⟩
  · rw [Context.closing_comment_at]
    unfold Grammar.commentAt
    split
    · exact Nat.zero_le _
    · split
      · rename_i opening closing _
        obtain ⟨taken, _, _, length, _⟩ :=
          block_length_spec opening closing g.nestedComments 1 0 opening.length (s.drop opening.length)
        dsimp only
        omega
      · exact Nat.zero_le _
  · rw [Literal.quoted]
    cases extent : quotedLength style false 0 style.opening.length (s.drop style.opening.length) with
    | mk n ends =>
      cases ends with
      | false =>
        have low := quoted_length_le style false 0 style.opening.length (s.drop style.opening.length)
        rw [extent] at low
        exact low
      | true =>
        -- The closing delimiter ends what was read behind the opening one.
        obtain ⟨taken, _, _, length, ending⟩ := quoted_length_closed _ _ _ _ _ extent
        have fits := ending.length_le
        dsimp only
        rw [if_pos rfl]
        omega
  · obtain ⟨_, n, _, _, _, _, rfl⟩ := Context.slash_some slash
    exact Nat.le_add_left 1 n

namespace Segment

structure IsFilled (x : Segment) : Prop where
  nonempty : x.text ≠ []
  delimited : x.opening + x.closing ≤ x.text.length

theorem length_le_size (s : List Char) : s.length ≤ size s := by
  induction s with
  | nil => exact Nat.le_refl 0
  | cons c rest ih =>
    have positive := Char.utf8Size_pos c
    rw [List.length_cons, size_cons]
    omega

theorem parted_of_tokens {tokens : List Token} (kinds : ∀ l text, Token.literal l text ∈ tokens → l.kind ≠ .code) (start : Nat)
    (code : List Char) : (ofTokens start code tokens).IsChain fun x y => ¬ (x.kind = .code ∧ y.kind = .code) := by
  induction tokens generalizing start code with
  | nil =>
    cases code with
    | nil => exact .nil
    | cons c code => exact .singleton _
  | cons t rest ih =>
    have later := ih fun l text member => kinds l text (List.mem_cons_of_mem t member)
    cases t with
    | code c => exact later start (c :: code)
    | literal l text =>
      have other : l.kind ≠ .code := kinds l text List.mem_cons_self
      -- A literal parts the code before it from the code behind it.
      have behind : (ofLiteral (start + size code) l text :: ofTokens (start + size code + size text) [] rest).IsChain
          fun x y => ¬ (x.kind = .code ∧ y.kind = .code) := by
        rw [List.isChain_cons]
        exact ⟨fun _ _ both => other both.1, later _ []⟩
      rw [ofTokens]
      cases code with
      | nil => exact behind
      | cons c code => exact .cons_cons (fun both => other both.2) behind

end Segment

section

variable {g : Grammar} {text : List Char}

theorem filled_of_mem_segments (legible : g.Legible) (text : List Char) : ∀ x ∈ segments g text, x.IsFilled := by
  rw [segments_eq]
  refine Segment.forall_of_tokens (fun start c code => ⟨by simp, Nat.zero_le _⟩) (fun offset l part member => ?_) 0 []
  obtain ⟨y, c, rest, found, rfl⟩ := literal_of_mem_tokens member
  have length := (literal_split legible found).2
  exact ⟨List.cons_ne_nil c _, by rw [Segment.ofLiteral, length]; exact Literal.delimiters_fit found⟩

theorem adjoin_of_contiguous {start : Nat} {xs : List Segment} (contiguous : Contiguous start xs)
    (filled : ∀ x ∈ xs, x.IsFilled) : Adjoin start (start + size (xs.flatMap (·.text))) (xs.map Segment.span) := by
  induction xs generalizing start with
  | nil => rfl
  | cons x rest ih =>
    have positive : 0 < size x.text :=
      Nat.pos_of_ne_zero fun none => (filled x List.mem_cons_self).nonempty (size_eq_zero_iff.mp none)
    have later := ih contiguous.2 fun y member => filled y (List.mem_cons_of_mem x member)
    have stop : x.stop = start + size x.text := congrArg (· + size x.text) contiguous.1
    rw [List.flatMap_cons, size_append, ← Nat.add_assoc]
    refine ⟨contiguous.1, ?_, ?_⟩
    · rw [show x.span.stop = x.stop from rfl, stop]
      omega
    · rwa [show x.span.stop = x.stop from rfl, stop]

theorem place_of_contiguous {front : List Char} {xs : List Segment} {x : Segment} (contiguous : Contiguous (size front) xs)
    (member : x ∈ xs) : ∃ before after, front ++ xs.flatMap (·.text) = before ++ x.text ++ after ∧ x.start = size before := by
  induction xs generalizing front with
  | nil => contradiction
  | cons first rest ih =>
    rw [List.flatMap_cons, ← List.append_assoc]
    rcases List.mem_cons.mp member with rfl | later
    · exact ⟨front, rest.flatMap (·.text), rfl, contiguous.1⟩
    · have next := contiguous.2
      rw [← size_append] at next
      exact ih next later

theorem segments_divide (legible : g.Legible) (text : List Char) : Divides text ((segments g text).map Segment.span) := by
  have filled := filled_of_mem_segments legible text
  have whole := flat_map_text_segments g text
  have place : ∀ x ∈ segments g text, ∃ before after, text = before ++ x.text ++ after ∧ x.start = size before ∧
      x.stop = size before + size x.text := by
    intro x member
    obtain ⟨before, after, parts, start⟩ := @place_of_contiguous [] _ x (contiguous_segments g text) member
    rw [List.nil_append, whole] at parts
    exact ⟨before, after, parts, start, congrArg (· + size x.text) start⟩
  constructor
  case adjoin =>
    have adjoin := adjoin_of_contiguous (contiguous_segments g text) filled
    rwa [whole, Nat.zero_add] at adjoin
  case boundaries =>
    refine List.forall_mem_map.mpr fun x member => ?_
    obtain ⟨before, after, parts, start, stop⟩ := place x member
    change Bytewise.isBoundary text x.start = true ∧ Bytewise.isBoundary text x.stop = true
    constructor
    · rw [start, parts, List.append_assoc]
      exact Bytewise.boundary_size before _
    · rw [stop, ← size_append, parts]
      exact Bytewise.boundary_size _ after
  case slices =>
    refine ⟨(segments g text).map (·.text), Bytewise.map_m_of_ok fun x member => ?_, ?_⟩
    · obtain ⟨before, after, parts, start, stop⟩ := place x member
      exact Bytewise.slice_of_parts parts start stop
    · rw [← List.flatMap_def, whole]
  case delimited =>
    refine List.forall_mem_map.mpr fun x member => ?_
    have fits := (filled x member).delimited
    have bytes := Segment.length_le_size x.text
    change x.start + x.opening + x.closing ≤ x.start + size x.text
    omega
  case parted =>
    rw [List.isChain_map, segments_eq]
    exact Segment.parted_of_tokens (fun l part => kind_of_mem_tokens) 0 []

end

theorem stops_ordered {start : Nat} {segments : List Segment} (contiguous : Contiguous start segments) :
    segments.Pairwise fun earlier later => earlier.stop ≤ later.start := by
  induction segments generalizing start with
  | nil => exact .nil
  | cons s rest ih =>
    refine .cons (fun later member => ?_) (ih contiguous.2)
    have behind := start_of_contiguous contiguous.2 member
    rwa [Segment.stop, contiguous.1]

theorem CodeMap.is_code_of_in_code {g : Grammar} {text : List Char} {offset : Nat} (inside : InCode g text offset) :
    (ofText g text).isCode offset = true := by
  obtain ⟨x, member, kind, low, high⟩ := inside
  have among : x ∈ (segments g text).filter fun s => s.kind = .code := List.mem_filter.mpr ⟨member, by simpa using kind⟩
  obtain ⟨front, back, parts⟩ := List.append_of_mem among
  have order := (stops_ordered (contiguous_segments g text)).filter fun s => s.kind = .code
  rw [parts, List.pairwise_append, List.pairwise_cons] at order
  -- Of the spans that start at or before the offset, that of the segment is the last.
  have spans : (ofText g text).code.toList =
      (front.map (fun s => (s.start, s.stop)) ++ [(x.start, x.stop)]) ++ back.map fun s => (s.start, s.stop) := by
    rw [ofText, parts]
    simp
  have boundary : Search.boundary (fun span : Nat × Nat => decide (span.1 ≤ offset)) (ofText g text).code =
      front.length + 1 := by
    rw [Search.boundary_append spans]
    · simp
    · rw [List.forall_mem_append, List.forall_mem_map, List.forall_mem_singleton]
      refine ⟨fun s earlier => ?_, decide_eq_true low⟩
      have before := order.2.2 s earlier x List.mem_cons_self
      have length : s.start ≤ s.stop := Nat.le_add_right _ _
      exact decide_eq_true (by dsimp only; omega)
    · rw [List.forall_mem_map]
      intro s later
      have behind := order.2.1.1 s later
      exact decide_eq_false (by dsimp only; omega)
  have found : (ofText g text).code[front.length]? = some (x.start, x.stop) := by
    rw [← Array.getElem?_toList, spans]
    simp
  unfold isCode
  rw [show Search.boundary (fun span : Nat × Nat => decide (span.1 ≤ offset)) (ofText g text).code = _ from boundary]
  simp [found, high]

/-- The segments divide a text, also as they are read by byte indices, and the table finds the bytes of the code. -/
theorem segments_partition (host : Host) (text : List Char) :
    Bytewise.segment host.grammar text = .ok ((segments host.grammar text).map Segment.span) ∧
      Divides text ((segments host.grammar text).map Segment.span) ∧
      ∀ offset, (CodeMap.ofText host.grammar text).isCode offset = true ↔ InCode host.grammar text offset :=
  ⟨Bytewise.segment_eq host.grammar_in_ascii text, segments_divide host.grammar_in_ascii.toLegible text,
    fun _ => ⟨CodeMap.in_code_of_is_code, CodeMap.is_code_of_in_code⟩⟩

end SnippetReview
