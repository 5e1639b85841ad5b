import SnippetReview.Proofs.Bytewise.Segments
import SnippetReview.Proofs.Lexing.Appending
import SnippetReview.Proofs.Text.Trimming

/- What begins a text, alone and behind other text. A literal may be missed there: a quoted one whose
   delimiter would continue an identifier, or a regular expression after an operand. If none is, the text is
   read as it is alone. -/

set_option autoImplicit false

namespace SnippetReview

open Text

def quoteMarks : List Char := ['"', '\'', '`']

namespace Context

def inIdent (x : Context) : Bool := (x.before.map isIdentChar).getD false

def Misses (x : Context) (c : Char) (l : Literal) : Prop :=
  (l.kind = .quoted ∧ c ∉ quoteMarks ∧ x.inIdent = true) ∨ (l.kind = .regex ∧ x.regexMayStart = false)

variable {g : Grammar} {c : Char} {rest : List Char}

theorem opens_after_head {style : QuoteStyle} (nonempty : style.opening ≠ []) (stands : style.opening.isPrefixOf (c :: rest) = true)
    (x : Context) : Literal.QuoteStyle.opensAfter style x.before = (quoteMarks.contains c || !x.inIdent) := by
  obtain ⟨d, more, heads⟩ := List.exists_cons_of_ne_nil nonempty
  rw [heads, List.isPrefixOf_iff_prefix, List.cons_prefix_cons] at stands
  rw [Literal.QuoteStyle.opensAfter, heads, stands.1]
  simp only [quoteMarks, List.contains_cons, List.contains_nil, Bool.or_false, Bool.or_assoc, inIdent]

theorem quote_behind (legible : g.Legible) (x : Context) (c : Char) (rest : List Char) :
    x.quote? g (c :: rest) = if quoteMarks.contains c || !x.inIdent then ({} : Context).quote? g (c :: rest) else none := by
  have opens : ∀ style ∈ g.quotes, ∀ y : Context,
      (style.opening.isPrefixOf (c :: rest) && Literal.QuoteStyle.opensAfter style y.before) =
        (style.opening.isPrefixOf (c :: rest) && (quoteMarks.contains c || !y.inIdent)) := by
    intro style member y
    cases stands : style.opening.isPrefixOf (c :: rest) with
    | false => rfl
    | true => rw [opens_after_head (legible.quote style member).1.1 stands]
  unfold quote?
  split
  next open' =>
    refine find_congr fun style member => ?_
    rw [opens style member, opens style member, open']
    simp [inIdent]
  next closed =>
    rw [List.find?_eq_none]
    intro style member
    rw [opens style member, Bool.eq_false_iff.mpr closed, Bool.and_false]
    exact Bool.false_ne_true

theorem slash_behind (x : Context) (s : List Char) :
    x.slash? g s = if x.regexMayStart then ({} : Context).slash? g s else none := by
  have alone : ({} : Context).regexMayStart = true := rfl
  unfold slash?
  rw [alone]
  cases x.regexMayStart with
  | true => rfl
  | false =>
    rw [Bool.and_false]
    split <;> rfl

theorem kind_of_slash {x : Context} {s : List Char} {l : Literal} (found : x.slash? g s = some l) : l.kind = .regex := by
  obtain ⟨_, _, _, _, _, _, rfl⟩ := slash_some found
  rfl

theorem literal_behind (legible : g.Legible) (x : Context) (c : Char) (rest : List Char) :
    (x.literal? g (c :: rest) = ({} : Context).literal? g (c :: rest) ∧
        ∀ l ∈ ({} : Context).literal? g (c :: rest), ¬ x.Misses c l) ∨
      ∃ l ∈ ({} : Context).literal? g (c :: rest), x.Misses c l ∧ ∀ l' ∈ x.literal? g (c :: rest), l'.kind ≠ l.kind := by
  rw [literal_eq, literal_eq, quote_behind legible, slash_behind x]
  by_cases comment : g.beginsComment (c :: rest) = true
  · -- A comment begins whatever is before it.
    left
    rw [if_pos comment, if_pos comment]
    refine ⟨rfl, fun l same missed => ?_⟩
    have kind : l.kind = .comment := by
      rw [← Option.some.inj same]
      exact kind_comment_at g _
    rcases missed with ⟨quoted, _⟩ | ⟨regex, _⟩
    · rw [kind] at quoted
      contradiction
    · rw [kind] at regex
      contradiction
  · rw [if_neg comment, if_neg comment]
    cases ({} : Context).quote? g (c :: rest) with
    | some style =>
      by_cases open' : (quoteMarks.contains c || !x.inIdent) = true
      · left
        rw [if_pos open']
        refine ⟨rfl, fun l same missed => ?_⟩
        obtain rfl := Option.some.inj same
        rcases missed with ⟨_, unmarked, ident⟩ | ⟨regex, _⟩
        · simp [unmarked, ident] at open'
        · contradiction
      · right
        rw [if_neg open']
        rw [Bool.not_eq_true, Bool.or_eq_false_iff, Bool.not_eq_eq_eq_not, Bool.not_false] at open'
        refine ⟨.quoted style (c :: rest), rfl, .inl ⟨rfl, by simpa using open'.1, open'.2⟩, fun l' found => ?_⟩
        rw [← slash_behind] at found
        rw [kind_of_slash found]
        exact SegmentKind.noConfusion
    | none =>
      -- What is left is a regular expression, which no operand may precede.
      rw [ite_self]
      cases slash : ({} : Context).slash? g (c :: rest) with
      | none => exact .inl ⟨ite_self _, by simp⟩
      | some l =>
        cases may : x.regexMayStart with
        | true =>
          refine .inl ⟨rfl, fun l' same missed => ?_⟩
          obtain rfl := Option.some.inj same
          rcases missed with ⟨quoted, _⟩ | ⟨_, never⟩
          · rw [kind_of_slash slash] at quoted
            contradiction
          · rw [may] at never
            contradiction
        | false => exact .inr ⟨l, rfl, .inr ⟨kind_of_slash slash, may⟩, by simp⟩

end Context

section

variable {g : Grammar} {c : Char} {rest : List Char}

theorem tokens_from_of_literal (ink : isBlank c = false) {x y : Context} (same : x.literal? g (c :: rest) = y.literal? g (c :: rest)) :
    tokensFrom g x (c :: rest) = tokensFrom g y (c :: rest) := by
  cases found : y.literal? g (c :: rest) with
  | some l => rw [tokens_from_literal found, tokens_from_literal (same.trans found)]
  | none =>
    rw [tokens_from_code found, tokens_from_code (same.trans found)]
    -- Behind a sign nothing that is before it counts any more.
    refine congrArg _ (tokens_from_of_same (fun _ _ _ => rfl) fun _ => ?_)
    simp [Context.regexMayStart, Context.afterCode, Literal.regexMayStart, ascii_ink ink]

namespace Segment

theorem kind_of_code_head (offset : Nat) (c : Char) (code : List Char) (tokens : List Token) :
    (ofTokens offset (c :: code) tokens).head?.map kind = some .code := by
  induction tokens generalizing c code with
  | nil => rfl
  | cons t rest ih =>
    cases t with
    | code d => exact ih d (c :: code)
    | literal l text => rfl

theorem kind_of_head (offset : Nat) (x : Context) (c : Char) (rest : List Char) :
    (ofTokens offset [] (tokensFrom g x (c :: rest))).head?.map kind =
      some ((x.literal? g (c :: rest)).elim .code Literal.kind) := by
  cases found : x.literal? g (c :: rest) with
  | some l =>
    rw [tokens_from_literal found]
    rfl
  | none =>
    rw [tokens_from_code found]
    exact kind_of_code_head offset c [] _

theorem spans_behind (legible : g.Legible) (ink : isBlank c = false) (offset : Nat) (x : Context) :
    (ofTokens offset [] (tokensFrom g x (c :: rest))).map span = (ofTokens offset [] (tokensFrom g {} (c :: rest))).map span ↔
      ¬ ∃ l ∈ ({} : Context).literal? g (c :: rest), x.Misses c l := by
  rcases Context.literal_behind legible x c rest with ⟨same, kept⟩ | ⟨l, found, missed, other⟩
  · rw [tokens_from_of_literal ink same]
    simpa using kept
  · -- What is missed shows in the kind of the first segment.
    refine iff_of_false (fun same => ?_) fun none => none ⟨l, found, missed⟩
    have heads := congrArg (fun spans => spans.head?.map Span.kind) same
    simp only [List.head?_map, Option.map_map] at heads
    replace heads := (kind_of_head offset x c rest).symm.trans (heads.trans (kind_of_head offset {} c rest))
    rw [Option.mem_def.mp found] at heads
    cases found' : x.literal? g (c :: rest) with
    | none =>
      rw [found'] at heads
      exact Context.literal_kind found (Option.some.inj heads).symm
    | some l' =>
      rw [found'] at heads
      exact other l' found' (Option.some.inj heads)

end Segment

end

end SnippetReview
