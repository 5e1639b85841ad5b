import SnippetReview.Proofs.Lexing.Token

set_option autoImplicit false

namespace SnippetReview

open Text

def Contiguous : Nat → List Segment → Prop
  | _, [] => True
  | offset, s :: rest => s.start = offset ∧ Contiguous (offset + size s.text) rest

theorem start_of_contiguous {offset : Nat} {segments : List Segment} (contiguous : Contiguous offset segments)
    {s : Segment} (member : s ∈ segments) : offset ≤ s.start := by
  induction segments generalizing offset with
  | nil => contradiction
  | cons first rest ih =>
    rcases List.mem_cons.mp member with rfl | later
    · exact Nat.le_of_eq contiguous.1.symm
    · exact Nat.le_trans (Nat.le_add_right offset (size first.text)) (ih contiguous.2 later)

namespace Segment

theorem size_reverse (s : List Char) : size s.reverse = size s := by
  induction s with
  | nil => rfl
  | cons c rest ih =>
    rw [List.reverse_cons, size_append, ih, size_singleton, size_cons]
    omega

theorem contiguous_of_code {start : Nat} {code : List Char} {rest : List Segment}
    (next : Contiguous (start + size code) rest) : Contiguous start (ofCode start code ++ rest) := by
  unfold ofCode
  cases code with
  | nil => exact next
  | cons c code => exact ⟨rfl, by rw [size_reverse]; exact next⟩

theorem contiguous_of_tokens (start : Nat) (code : List Char) (tokens : List Token) :
    Contiguous start (ofTokens start code tokens) := by
  induction tokens generalizing start code with
  | nil =>
    have whole : Contiguous start (ofCode start code ++ []) := contiguous_of_code trivial
    rwa [List.append_nil] at whole
  | cons t rest ih =>
    cases t with
    | code c => exact ih start (c :: code)
    | literal l text => exact contiguous_of_code ⟨rfl, ih _ []⟩

theorem of_tokens_code (start : Nat) (c : Char) (code : List Char) (tokens : List Token) :
    ∃ first rest, ofTokens start (c :: code) tokens = first :: rest ∧ first.kind = .code ∧ first.text ≠ [] := by
  induction tokens generalizing c code with
  | nil => exact ⟨_, _, rfl, rfl, by simp⟩
  | cons t rest ih =>
    cases t with
    | code d => exact ih d (c :: code)
    | literal l text => exact ⟨_, _, rfl, rfl, by simp⟩

theorem forall_of_tokens {P : Segment → Prop} {tokens : List Token}
    (run : ∀ start c code, P ⟨.code, start, (c :: code).reverse, 0, 0⟩)
    (literal : ∀ offset l text, Token.literal l text ∈ tokens → P (ofLiteral offset l text)) (start : Nat) (code : List Char) :
    ∀ x ∈ ofTokens start code tokens, P x := by
  have runs : ∀ start code, ∀ x ∈ ofCode start code, P x := by
    intro start code
    cases code with
    | nil => exact List.forall_mem_nil P
    | cons c code => exact List.forall_mem_singleton.mpr (run start c code)
  induction tokens generalizing start code with
  | nil => exact runs start code
  | cons t rest ih =>
    have later := ih fun offset l text member => literal offset l text (List.mem_cons_of_mem t member)
    cases t with
    | code c => exact later start (c :: code)
    | literal l text =>
      refine List.forall_mem_append.mpr ⟨runs start code, List.forall_mem_cons.mpr ⟨?_, later _ []⟩⟩
      exact literal _ l text List.mem_cons_self

theorem flat_map_of_tokens {f : Segment → List Char} {h : Token → List Char}
    (code_eq : ∀ start text, f ⟨.code, start, text, 0, 0⟩ = text) (char_eq : ∀ c, h (.code c) = [c])
    (literal_eq : ∀ start l text, f (ofLiteral start l text) = h (.literal l text)) (start : Nat) (code : List Char)
    (tokens : List Token) : (ofTokens start code tokens).flatMap f = code.reverse ++ tokens.flatMap h := by
  have code_part : ∀ start code, (ofCode start code).flatMap f = code.reverse := by
    intro start code
    cases code with
    | nil => rfl
    | cons c code => simp [ofCode, code_eq]
  induction tokens generalizing start code with
  | nil => rw [ofTokens, code_part, List.flatMap_nil, List.append_nil]
  | cons t rest ih =>
    cases t with
    | code c => rw [ofTokens, ih, List.flatMap_cons, char_eq, List.reverse_cons, List.append_assoc]
    | literal l text =>
      rw [ofTokens, List.flatMap_append, List.flatMap_cons, code_part, literal_eq, ih, List.flatMap_cons,
        List.reverse_nil, List.nil_append]

def literalsFrom : Nat → List Token → List Segment
  | _, [] => []
  | offset, .code c :: rest => literalsFrom (offset + c.utf8Size) rest
  | offset, .literal l text :: rest => ofLiteral offset l text :: literalsFrom (offset + size text) rest

theorem filter_of_tokens {p : Segment → Bool} (noCode : ∀ s, s.kind = .code → p s = false) (start : Nat)
    (code : List Char) (tokens : List Token) :
    (ofTokens start code tokens).filter p = (literalsFrom (start + size code) tokens).filter p := by
  have dropped : ∀ start code, (ofCode start code).filter p = [] := by
    intro start code
    cases code with
    | nil => rfl
    | cons c code => simp [ofCode, noCode]
  induction tokens generalizing start code with
  | nil => exact dropped start code
  | cons t rest ih =>
    cases t with
    | code c =>
      have shift : start + size (c :: code) = start + size code + c.utf8Size := by
        rw [size_cons]
        omega
      rw [ofTokens, ih, shift]
      rfl
    | literal l text =>
      have tail := ih (start + size code + size text) []
      rw [size_nil, Nat.add_zero] at tail
      rw [ofTokens, literalsFrom, List.filter_append, dropped, List.nil_append, List.filter_cons, List.filter_cons,
        tail]

end Segment

theorem flat_map_text_segments (g : Grammar) (source : List Char) :
    (segments g source).flatMap (·.text) = source := by
  rw [segments_eq, Segment.flat_map_of_tokens (h := Token.text) (fun _ _ => rfl) (fun _ => rfl) (fun _ _ _ => rfl)]
  exact flatten_tokens_from g {} source

theorem contiguous_segments (g : Grammar) (source : List Char) : Contiguous 0 (segments g source) := by
  rw [segments_eq]
  exact Segment.contiguous_of_tokens 0 [] _

theorem strip_comments_eq (g : Grammar) (source : List Char) :
    stripComments g source = visibleText (tokens g source) := by
  rw [stripComments, segments_eq, Segment.flat_map_of_tokens (h := Token.visible) (fun _ _ => rfl) (fun _ => rfl)
    (fun _ _ _ => rfl)]
  rfl

end SnippetReview
