import SnippetReview.Host.BlockGrammars
import SnippetReview.Proofs.Lexing.Partition
import SnippetReview.Proofs.Lexing.Rereading

set_option autoImplicit false

namespace SnippetReview

open Text

theorem Host.grammar_legible (host : Host) : host.grammar.Legible := by
  cases host <;> exact ⟨by decide, by decide, by decide, by decide, by decide⟩

namespace Segment

def isLiteral (s : Segment) : Bool := s.kind != .code && s.kind != .comment

def isNoCode (s : Segment) : Bool := s.kind != .code

theorem literals_from_code (offset : Nat) (cs : List Char) (rest : List Token) :
    literalsFrom offset (cs.map .code ++ rest) = literalsFrom (offset + size cs) rest := by
  induction cs generalizing offset with
  | nil => rfl
  | cons c cs ih =>
    rw [List.map_cons, List.cons_append, literalsFrom, ih, size_cons, Nat.add_assoc]

theorem literals_from_reread (offset : Nat) (tokens : List Token) :
    (literalsFrom offset (tokens.flatMap Token.reread)).filter isNoCode =
      (literalsFrom offset tokens).filter isLiteral := by
  induction tokens generalizing offset with
  | nil => rfl
  | cons t rest ih =>
    rw [List.flatMap_cons]
    cases t with
    | code c => exact ih (offset + c.utf8Size)
    | literal l text =>
      by_cases comment : l.kind = .comment
      · rw [Token.reread_comment comment, literals_from_code, size_flat_map_blanked, ih, literalsFrom,
          List.filter_cons]
        simp [isLiteral, ofLiteral, comment]
      · rw [Token.reread_kept comment, List.singleton_append, literalsFrom, literalsFrom, List.filter_cons,
          List.filter_cons, ih]
        simp [isLiteral, isNoCode, ofLiteral, comment]

end Segment

-- The text with comments blanked out is read as the text is, apart from its comments.
def RereadsAlike (g : Grammar) (source : List Char) : Prop :=
  (segments g (stripComments g source)).filter Segment.isNoCode = (segments g source).filter Segment.isLiteral

theorem filter_segments {p : Segment → Bool} (noCode : ∀ s, s.kind = .code → p s = false) (g : Grammar)
    (source : List Char) : (segments g source).filter p = (Segment.literalsFrom 0 (tokens g source)).filter p := by
  rw [segments_eq, Segment.filter_of_tokens noCode]
  rfl

theorem is_literal_code (s : Segment) (code : s.kind = .code) : s.isLiteral = false := by simp [Segment.isLiteral, code]

theorem is_no_code_code (s : Segment) (code : s.kind = .code) : s.isNoCode = false := by simp [Segment.isNoCode, code]

theorem tokens_strip {g : Grammar} (legible : g.Legible) {source : List Char} (steady : Steady g {} (tokens g source)) :
    tokens g (stripComments g source) = (tokens g source).flatMap Token.reread := by
  rw [strip_comments_eq]
  exact reread_tokens legible {} source {} (same_openings_of_before rfl source) steady

theorem rereads_alike_of_steady {g : Grammar} (legible : g.Legible) {source : List Char}
    (steady : Steady g {} (tokens g source)) : RereadsAlike g source := by
  unfold RereadsAlike
  rw [filter_segments is_no_code_code, filter_segments is_literal_code, tokens_strip legible steady,
    Segment.literals_from_reread]

-- The first character of a comment is no blank, so blanking a comment out changes the text.
theorem no_comment_of_visible_eq {g : Grammar} (legible : g.Legible) (x : Context) (s : List Char)
    (same : visibleText (tokensFrom g x s) = s) :
    ∀ l text, Token.literal l text ∈ tokensFrom g x s → l.kind ≠ .comment := by
  induction x, s using tokensFrom.induct g with
  | case1 x => simp [tokens_from_nil]
  | case2 x c rest l found body ih =>
    obtain ⟨split, _⟩ := literal_split legible found
    rw [tokens_from_literal found, visible_text_cons] at same
    have sizes : size (Token.literal l body).visible = size (c :: rest.take (l.length - 1)) := by
      simpa [visibleText, flatten, Token.text, body] using size_visible [Token.literal l body]
    have parts := append_inj_of_size (same.trans split) sizes
    have kept : l.kind ≠ .comment := by
      intro comment
      rw [Token.visible_comment comment, List.flatMap_cons] at parts
      obtain ⟨b, more, blanks⟩ := List.exists_cons_of_ne_nil (blanked_ne_nil c)
      rw [blanks, List.cons_append, List.cons.injEq] at parts
      have blank := faded_blanked c b (by rw [blanks]; exact List.mem_cons_self)
      rw [parts.1.1] at blank
      rw [literal_at_blank legible x blank rest] at found
      contradiction
    rw [tokens_from_literal found]
    intro k text member
    rcases List.mem_cons.mp member with head | tail
    · rw [Token.literal.injEq] at head
      rwa [head.1]
    · exact ih parts.2 k text tail
  | case3 x c rest none ih =>
    rw [tokens_from_code none, visible_text_cons, Token.visible, List.singleton_append, List.cons.injEq] at same
    rw [tokens_from_code none]
    intro k text member
    rcases List.mem_cons.mp member with head | tail
    · contradiction
    · exact ih same.2 k text tail

theorem mem_literals_from {s : Segment} {offset : Nat} {tokens : List Token} (member : s ∈ Segment.literalsFrom offset tokens) :
    ∃ l text, Token.literal l text ∈ tokens ∧ s.kind = l.kind := by
  induction tokens generalizing offset with
  | nil => contradiction
  | cons t rest ih =>
    cases t with
    | code c =>
      obtain ⟨l, text, later, kind⟩ := ih member
      exact ⟨l, text, List.mem_cons_of_mem _ later, kind⟩
    | literal l text =>
      rcases List.mem_cons.mp member with rfl | tail
      · exact ⟨l, text, List.mem_cons_self, rfl⟩
      · obtain ⟨k, body, later, kind⟩ := ih tail
        exact ⟨k, body, List.mem_cons_of_mem _ later, kind⟩

theorem strip_eq_self_iff {g : Grammar} (legible : g.Legible) (source : List Char) :
    stripComments g source = source ↔ ∀ s ∈ segments g source, s.kind ≠ .comment := by
  constructor
  · intro same s member comment
    rw [strip_comments_eq] at same
    have chosen : s ∈ (segments g source).filter Segment.isNoCode := by
      rw [List.mem_filter]
      exact ⟨member, by simp [Segment.isNoCode, comment]⟩
    rw [filter_segments is_no_code_code, List.mem_filter] at chosen
    obtain ⟨l, text, inside, kind⟩ := mem_literals_from chosen.1
    exact no_comment_of_visible_eq legible {} source same l text inside (kind ▸ comment)
  · intro clear
    calc stripComments g source = (segments g source).flatMap (·.text) := by
          unfold stripComments
          rw [List.flatMap_def, List.flatMap_def, List.map_congr_left fun s member => if_neg (clear s member)]
      _ = source := flat_map_text_segments g source

theorem no_comment_of_rereads_alike {g : Grammar} {source : List Char} (alike : RereadsAlike g source) :
    ∀ s ∈ segments g (stripComments g source), s.kind ≠ .comment := by
  intro s member comment
  have chosen : s ∈ (segments g (stripComments g source)).filter Segment.isNoCode := by
    rw [List.mem_filter]
    exact ⟨member, by simp [Segment.isNoCode, comment]⟩
  rw [alike, List.mem_filter] at chosen
  simp [Segment.isLiteral, comment] at chosen

theorem steady_of_no_regex {g : Grammar} (off : g.regexLiterals = false) (x : Context) (s : List Char) (y : Context) :
    Steady g y (tokensFrom g x s) := by
  have noSlash : ∀ (z : Context) (t : List Char), z.slash? g t = none := by
    intro z t
    unfold Context.slash?
    split
    · simp [off]
    · rfl
  induction x, s using tokensFrom.induct g generalizing y with
  | case1 x =>
    rw [tokens_from_nil]
    trivial
  | case2 x c rest l found text ih =>
    rw [tokens_from_literal found]
    refine ⟨fun regex => ?_, ih _⟩
    rcases Context.literal_cases found with ⟨_, rfl⟩ | ⟨_, style, _, rfl⟩ | ⟨_, _, slash⟩
    · rw [Context.kind_comment_at] at regex
      contradiction
    · contradiction
    · rw [noSlash] at slash
      contradiction
  | case3 x c rest none ih =>
    rw [tokens_from_code none]
    exact ⟨noSlash y _, ih _⟩

end SnippetReview
