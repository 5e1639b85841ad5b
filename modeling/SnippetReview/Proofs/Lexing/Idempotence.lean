import SnippetReview.Proofs.Lexing.Restripping

set_option autoImplicit false

namespace SnippetReview

open Text

theorem start_of_literals_from {s : Segment} {offset : Nat} {tokens : List Token}
    (member : s ∈ Segment.literalsFrom offset tokens) : offset ≤ s.start := by
  induction tokens generalizing offset with
  | nil => contradiction
  | cons t rest ih =>
    cases t with
    | code c => exact Nat.le_trans (Nat.le_add_right offset c.utf8Size) (ih member)
    | literal l text =>
      rcases List.mem_cons.mp member with rfl | tail
      · exact Nat.le_refl offset
      · exact Nat.le_trans (Nat.le_add_right offset (size text)) (ih tail)

theorem Context.regex_may_start {g : Grammar} {x : Context} {s : List Char} {l : Literal}
    (found : x.literal? g s = some l) (regex : l.kind = .regex) : x.regexMayStart = true := by
  rcases Context.literal_cases found with ⟨_, rfl⟩ | ⟨_, style, _, rfl⟩ | ⟨_, _, slash⟩
  · rw [Context.kind_comment_at] at regex
    contradiction
  · contradiction
  · obtain ⟨_, _, _, _, may, _, _⟩ := Context.slash_some slash
    exact may

namespace Segment

def Agree (offset : Nat) (second first : List Token) : Prop :=
  (literalsFrom offset second).filter isNoCode = (literalsFrom offset first).filter isLiteral

theorem is_no_code_literal {l : Literal} (kind : l.kind ≠ .code) (offset : Nat) (text : List Char) :
    (ofLiteral offset l text).isNoCode = true := by
  simp [isNoCode, ofLiteral, kind]

-- A literal of one reading stands where the other one has a literal too.
theorem start_of_agree {offset later : Nat} {l : Literal} {text : List Char} {second first : List Token}
    (kind : l.kind ≠ .code) (agree : (literalsFrom offset (.literal l text :: second)).filter isNoCode =
      (literalsFrom later first).filter isLiteral) : later ≤ offset := by
  have chosen : ofLiteral offset l text ∈ (literalsFrom offset (.literal l text :: second)).filter isNoCode :=
    List.mem_filter.mpr ⟨List.mem_cons_self, is_no_code_literal kind offset text⟩
  rw [agree] at chosen
  exact start_of_literals_from (List.mem_filter.mp chosen).1

end Segment

open Segment

theorem literal_of_agree_code {g : Grammar} {y : Context} {offset : Nat} {c : Char} {later : List Char}
    {first : List Token} (agree : Agree offset (tokensFrom g y (c :: later)) (.code c :: first)) :
    y.literal? g (c :: later) = none := by
  cases found : y.literal? g (c :: later) with
  | none => rfl
  | some l =>
    unfold Agree at agree
    rw [tokens_from_literal found] at agree
    have late : offset + c.utf8Size ≤ offset := start_of_agree (Context.literal_kind found) agree
    have positive := Char.utf8Size_pos c
    omega

theorem literal_of_agree_literal {g : Grammar} (legible : g.Legible) {y : Context} {offset : Nat} {l : Literal}
    {c : Char} {body later : List Char} {first : List Token} (length : (c :: body).length = l.length)
    (kept : l.kind ≠ .comment) (noCode : l.kind ≠ .code)
    (agree : Agree offset (tokensFrom g y (c :: body ++ later)) (.literal l (c :: body) :: first)) :
    y.literal? g (c :: body ++ later) = some l := by
  have chosen : isLiteral (ofLiteral offset l (c :: body)) = true := by simp [isLiteral, ofLiteral, kept, noCode]
  unfold Agree at agree
  rw [literalsFrom, List.filter_cons_of_pos chosen, List.cons_append] at agree
  cases found : y.literal? g (c :: (body ++ later)) with
  | none =>
    rw [tokens_from_code found] at agree
    have member : ofLiteral offset l (c :: body) ∈
        (literalsFrom offset (.code c :: tokensFrom g (y.afterCode c) (body ++ later))).filter isNoCode := by
      rw [agree]
      exact List.mem_cons_self
    have later : ofLiteral offset l (c :: body) ∈
        literalsFrom (offset + c.utf8Size) (tokensFrom g (y.afterCode c) (body ++ later)) := (List.mem_filter.mp member).1
    have late : offset + c.utf8Size ≤ offset := start_of_literals_from later
    have positive := Char.utf8Size_pos c
    omega
  | some m =>
    obtain ⟨_, length'⟩ := literal_split legible found
    rw [tokens_from_literal found, literalsFrom,
      List.filter_cons_of_pos (is_no_code_literal (Context.literal_kind found) _ _), List.cons.injEq] at agree
    have same := agree.1
    unfold ofLiteral at same
    injection same with kind _ text opening closing
    rw [text, length] at length'
    rw [List.cons_append, found, Option.some.injEq]
    cases l
    cases m
    simp only at kind length' opening closing
    rw [kind, length', opening, closing]

theorem steady_of_agree {g : Grammar} (legible : g.Legible) (x : Context) (s : List Char) (y : Context) (offset : Nat)
    (agree : Agree offset (tokensFrom g y (visibleText (tokensFrom g x s))) (tokensFrom g x s)) :
    Steady g y (tokensFrom g x s) := by
  induction x, s using tokensFrom.induct g generalizing y offset with
  | case1 x =>
    rw [tokens_from_nil]
    trivial
  | case2 x c rest l found text ih =>
    obtain ⟨_, length⟩ := literal_split legible found
    rw [tokens_from_literal found] at agree ⊢
    rw [visible_text_cons] at agree
    by_cases comment : l.kind = .comment
    · refine ⟨fun regex => absurd (comment.symm.trans regex) SegmentKind.noConfusion, ?_⟩
      rw [Context.after_visible_comment y comment]
      refine ih _ (offset + size text) ?_
      unfold Agree at agree ⊢
      rw [Token.visible_comment comment, tokens_from_blanks legible y _ _ (faded_flat_map_blanked _),
        literals_from_code, size_flat_map_blanked, literalsFrom] at agree
      rwa [List.filter_cons_of_neg (by simp [isLiteral, ofLiteral, comment])] at agree
    · have noCode := Context.literal_kind found
      rw [Token.visible_kept comment] at agree
      have again := literal_of_agree_literal legible length comment noCode agree
      refine ⟨Context.regex_may_start again, ?_⟩
      rw [Context.after_visible_kept y comment]
      refine ih _ (offset + size text) ?_
      unfold Agree at agree ⊢
      rw [tokens_from_append (List.cons_ne_nil _ _) length again, literalsFrom, literalsFrom,
        List.filter_cons_of_pos (is_no_code_literal noCode _ _),
        List.filter_cons_of_pos (by simp [isLiteral, ofLiteral, comment, noCode]), List.cons.injEq] at agree
      exact agree.2
  | case3 x c rest none ih =>
    rw [tokens_from_code none] at agree ⊢
    rw [visible_text_cons, Token.visible, List.singleton_append] at agree
    have again := literal_of_agree_code agree
    obtain ⟨_, _, noSlash⟩ := Context.literal_none again
    refine ⟨noSlash, ih _ (offset + c.utf8Size) ?_⟩
    rwa [tokens_from_code again] at agree

theorem rereads_alike_iff_steady {g : Grammar} (legible : g.Legible) (source : List Char) :
    RereadsAlike g source ↔ Steady g {} (tokens g source) := by
  constructor
  · intro alike
    unfold RereadsAlike at alike
    rw [filter_segments is_no_code_code, filter_segments is_literal_code, strip_comments_eq] at alike
    exact steady_of_agree legible {} source {} 0 alike
  · exact rereads_alike_of_steady legible

/-- Stripping twice is stripping once if and only if the stripped text is read without comments. It is
if each slash is read as it was with the comments; that is so if and only if the literals agree. -/
theorem javascript_strip_twice_iff (source : List Char) :
    (stripComments Host.javascript.grammar (stripComments Host.javascript.grammar source) =
        stripComments Host.javascript.grammar source ↔
      ∀ s ∈ segments Host.javascript.grammar (stripComments Host.javascript.grammar source), s.kind ≠ .comment) ∧
    (RereadsAlike Host.javascript.grammar source ↔ Steady Host.javascript.grammar {} (tokens Host.javascript.grammar source)) ∧
    (Steady Host.javascript.grammar {} (tokens Host.javascript.grammar source) →
      stripComments Host.javascript.grammar (stripComments Host.javascript.grammar source) =
        stripComments Host.javascript.grammar source) := by
  have legible := Host.grammar_legible .javascript
  have idempotent := strip_eq_self_iff legible (stripComments Host.javascript.grammar source)
  have alike := rereads_alike_iff_steady legible source
  exact ⟨idempotent, alike, fun steady => idempotent.mpr (no_comment_of_rereads_alike (alike.mpr steady))⟩

-- The operand stands before a comment, and the slash after it is taken for a regular expression.
theorem javascript_strip_twice_divided :
    let g := Host.javascript.grammar
    let stripped := stripComments g "Sentry.init(\x7b a: n /* ms */ / 2, b: 3 // one\n \x7d)".toList
    stripComments g stripped ≠ stripped := by
  decide +kernel

end SnippetReview
