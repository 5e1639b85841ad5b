import SnippetReview.Proofs.Lexing.Outgrowing
import SnippetReview.Proofs.Lexing.Sealing
import SnippetReview.Proofs.Lexing.Veiling

/- Reading a text alone and with blanks behind it. Where the code goes on behind the blanks, the tokens are
   the same, but for a last literal or comment without an end, which takes in some of the blanks. Code that
   ends in a character of no delimiter is read alike alone and with anything behind it. -/

set_option autoImplicit false

namespace SnippetReview

open Text

structure Grammar.Inked (g : Grammar) : Prop extends g.Legible where
  ink : ∀ marker ∈ g.delimiters, ∀ c ∈ marker, isBlank c = false

-- A character that stands in no delimiter and goes on no flags of a regular expression.
structure Grammar.Parts (g : Grammar) (d : Char) : Prop where
  apart : ∀ marker ∈ g.delimiters, d ∉ marker
  letter : d.isAlpha = false
  slash : d ≠ '/'

section

variable {g : Grammar}

theorem Grammar.Inked.parts (inked : g.Inked) {c : Char} (blank : isBlank c = true) : g.Parts c where
  apart marker known member := by
    rw [inked.ink marker known c member] at blank
    contradiction
  letter := not_alpha_of_blank blank
  slash := by
    rintro rfl
    exact absurd blank (by decide)

theorem literal_of_parts (legible : g.Legible) {d : Char} (parts : g.Parts d) (rest : List Char) (x : Context) :
    x.literal? g (d :: rest) = none := by
  refine literal_none_of_no_marker parts.slash (fun marker member stands => ?_) x
  -- A delimiter that begins here would begin with what parts the texts.
  have known : marker ∈ g.delimiters := mem_delimiters_of_marker member
  obtain ⟨m, more, rfl⟩ := List.exists_cons_of_ne_nil (marker_of_mem legible member).1
  exact parts.apart _ known ((List.cons_prefix_cons.mp stands).1 ▸ List.mem_cons_self)

theorem front_of_flatten {first second rest rest' : List Token} {more : List Char} (same : first ++ rest = second ++ rest')
    (filled : ∀ t ∈ first, t.IsFilled) (text : flatten second = flatten first ++ more) :
    ∃ between, second = first ++ between ∧ flatten between = more := by
  rcases List.append_eq_append_iff.mp same with ⟨between, rfl, -⟩ | ⟨between, rfl, -⟩
  · rw [flatten_append] at text
    exact ⟨between, rfl, List.append_cancel_left text⟩
  · rw [flatten_append, List.append_assoc, List.self_eq_append_right] at text
    obtain ⟨none, rfl⟩ := List.append_eq_nil_iff.mp text
    cases between with
    | nil => exact ⟨[], by simp, rfl⟩
    | cons t between =>
      rw [flatten_cons, List.append_eq_nil_iff] at none
      exact absurd none.1 (filled t (by simp)).nonempty

theorem front_eq_of_flatten {first second rest rest' : List Token} (same : first ++ rest = second ++ rest')
    (filled : ∀ t ∈ first, t.IsFilled) (filled' : ∀ t ∈ second, t.IsFilled) (text : flatten second = flatten first) :
    second = first := by
  obtain ⟨between, rfl, none⟩ := front_of_flatten same filled (text.trans (List.append_nil _).symm)
  cases between with
  | nil => exact List.append_nil first
  | cons t between =>
    rw [flatten_cons, List.append_eq_nil_iff] at none
    exact absurd none.1 (filled' t (by simp)).nonempty

theorem code_of_parts (legible : g.Legible) {y : Context} {blanks later : List Char} (parts : ∀ d ∈ blanks, g.Parts d)
    {front rest : List Token} (read : tokensFrom g y (blanks ++ later) = front ++ rest) (text : flatten front = blanks) :
    front = blanks.map .code := by
  have code : tokensFrom g y (blanks ++ later) = blanks.map .code ++ tokensFrom g _ later :=
    tokens_from_code_all (fun d more done split => literal_of_parts legible (parts d (by rw [split]; simp)) _) y
  refine front_eq_of_flatten (code.symm.trans read) (fun t member => ?_) (fun t member => ?_) ?_
  · obtain ⟨d, -, rfl⟩ := List.mem_map.mp member
    trivial
  · exact filled_of_mem_tokens (g := g) (x := y) (s := blanks ++ later) (by rw [read]; exact List.mem_append_left _ member)
  · rw [flatten_map_code, text]

-- The tokens of a text alone, and with blanks behind it. A literal or comment without an end takes blanks in.
inductive CutOff : List Char → List Token → List Token → Prop where
  | code (blanks : List Char) : CutOff blanks [] (blanks.map .code)
  | cons {t : Token} {blanks : List Char} {alone whole : List Token} (filled : t.IsFilled) (rest : CutOff blanks alone whole) :
      CutOff blanks (t :: alone) (t :: whole)
  | literal {l l' : Literal} {text taken left : List Char} (filled : (Token.literal l text).IsFilled) (kind : l'.kind = l.kind)
      (opening : l'.opening = l.opening) (unclosed : l.closing = 0) (unclosed' : l'.closing = 0) :
      CutOff (taken ++ left) [.literal l text] (.literal l' (text ++ taken) :: left.map .code)

theorem CutOff.text_eq {blanks : List Char} {alone whole : List Token} (cut : CutOff blanks alone whole) :
    flatten whole = flatten alone ++ blanks := by
  induction cut with
  | code blanks => exact flatten_map_code blanks
  | cons _ _ ih => rw [flatten_cons, flatten_cons, ih, List.append_assoc]
  | literal => simp [flatten_cons, Token.text, flatten_map_code, show flatten [] = [] from rfl]

theorem ink_of_literal (inked : g.Inked) {x : Context} {s : List Char} {l : Literal} {text : List Char}
    (member : Token.literal l text ∈ tokensFrom g x s) (ends : l.kind = .regex ∨ l.closing ≠ 0) : ∃ c ∈ text.getLast?, isBlank c = false := by
  obtain ⟨y, c, rest, found, rfl⟩ := literal_of_mem_tokens member
  rcases Context.literal_cases found with ⟨_, rfl⟩ | ⟨_, style, quote, rfl⟩ | ⟨_, _, slash⟩
  · rw [Context.kind_comment_at, Context.closing_comment_at] at ends
    exact absurd ends (by decide)
  · -- A closed literal ends in its closing delimiter.
    obtain ⟨style, known, content, parts, -⟩ := closed_parts found rfl (ends.resolve_left SegmentKind.noConfusion)
    obtain ⟨front, d, last⟩ := List.eq_nil_or_concat style.closing |>.resolve_left (inked.quote style known).2.1
    rw [List.concat_eq_append] at last
    have closing : style.closing ∈ g.delimiters := List.mem_append_right _ (List.mem_map_of_mem known)
    refine ⟨d, ?_, inked.ink style.closing closing d (by rw [last]; simp)⟩
    rw [parts, last, ← List.append_assoc, List.getLast?_concat]
    rfl
  · -- A regular expression ends in a slash or in a flag, which is a letter.
    obtain ⟨tail, n, heads, _, _, length, rfl⟩ := Context.slash_some slash
    obtain ⟨taken, later, split, count, d, last, sign⟩ := regex_length_ends false false 0 n tail length
    obtain ⟨rfl, rfl⟩ := List.cons.inj heads
    have text : rest.take (n + 1 - 1) = taken := by
      rw [Nat.add_sub_cancel, count, Nat.zero_add, split, List.take_left]
    refine ⟨d, ?_, ?_⟩
    · rw [text, List.getLast?_cons, Option.mem_def.mp last]
      rfl
    · rcases sign with rfl | letter
      · rfl
      · cases blank : isBlank d with
        | false => rfl
        | true => exact absurd letter (by rw [not_alpha_of_blank blank]; decide)

theorem not_ends_of_beyond (inked : g.Inked) {x : Context} {s : List Char} {l : Literal} {text more : List Char}
    (member : Token.literal l (text ++ more) ∈ tokensFrom g x s) (beyond : more ≠ []) (blank : ∀ d ∈ more, isBlank d = true) :
    ¬ (l.kind = .regex ∨ l.closing ≠ 0) := by
  intro ends
  obtain ⟨c, last, ink⟩ := ink_of_literal inked member ends
  obtain ⟨front, d, rfl⟩ := List.eq_nil_or_concat more |>.resolve_left beyond
  rw [List.concat_eq_append, ← List.append_assoc, List.getLast?_concat, Option.mem_some_iff] at last
  rw [← last, blank d (by simp)] at ink
  contradiction

theorem cut_off_of_read_on (inked : g.Inked) {blanks later : List Char} (blank : ∀ d ∈ blanks, isBlank d = true)
    {alone whole front rest : List Token} (reads : ReadOn g (blanks ++ later) alone whole) (split : whole = front ++ rest)
    (read : ∃ y, tokensFrom g y (flatten whole) = whole) (text : flatten front = flatten alone ++ blanks) :
    CutOff blanks alone front := by
  -- What comes first of the whole comes first of its front, which has a text.
  have first : ∀ {t : Token} {behind front : List Token}, t :: behind = front ++ rest → flatten front ≠ [] →
      ∃ front', front = t :: front' ∧ behind = front' ++ rest := by
    intro t behind front parts some
    cases front with
    | nil => exact absurd rfl some
    | cons u front =>
      obtain ⟨rfl, behind⟩ := List.cons.inj parts
      exact ⟨front, rfl, behind⟩
  induction reads generalizing front with
  | behind y =>
    rw [code_of_parts inked.toLegible (fun d member => inked.parts (blank d member)) split text]
    exact .code blanks
  | @cons t alone whole _ ih =>
    obtain ⟨y, read⟩ := read
    have filled : t.IsFilled := filled_of_mem_tokens (by rw [read]; exact List.mem_cons_self)
    rw [flatten_cons t alone, List.append_assoc] at text
    obtain ⟨front, rfl, behind⟩ := first split (by rw [text]; simp [filled.nonempty])
    rw [flatten_cons] at text
    have later := tokens_from_split (show tokensFrom g y _ = [t] ++ whole from read)
    exact .cons filled (ih behind ⟨_, later.symm⟩ (List.append_cancel_left text))
  | @longer l l' part more behind kind opening unclosed nonempty beyond =>
    obtain ⟨y, read⟩ := read
    rw [show flatten [Token.literal l part] = part by simp [flatten, Token.text]] at text
    obtain ⟨front, rfl, rest⟩ := first split (by rw [text]; simp [nonempty])
    rw [flatten_cons, Token.text, List.append_assoc] at text
    have taken := (List.append_cancel_left text).symm
    have inside : ∀ d ∈ more ++ flatten front, isBlank d = true := fun d member => blank d (by rwa [taken])
    have unended := not_ends_of_beyond inked (by rw [read]; exact List.mem_cons_self) beyond
      fun d member => inside d (List.mem_append_left _ member)
    rw [not_or, not_not] at unended
    -- Behind the literal there are blanks left, which are code.
    have left : front = (flatten front).map .code := by
      have later := (tokens_from_split (show tokensFrom g y _ = [.literal l' (part ++ more)] ++ behind from read)).symm
      rw [rest, flatten_append] at later
      exact code_of_parts inked.toLegible
        (fun d member => inked.parts (inside d (List.mem_append_right _ member))) later rfl
    have known : l.kind ≠ .code := by
      rw [← kind]
      exact kind_of_mem_tokens (by rw [read]; exact List.mem_cons_self)
    rw [taken, left, flatten_map_code]
    exact .literal ⟨known, nonempty⟩ kind opening unclosed unended.2
  | @regex l' alone more behind kind enabled slash beyond =>
    obtain ⟨y, read⟩ := read
    have some : flatten alone ≠ [] := by
      intro none
      rw [none] at slash
      contradiction
    -- A regular expression that ends among the blanks would end in one of them.
    obtain ⟨front, rfl, -⟩ := first split (by rw [text]; simp [some])
    rw [flatten_cons, Token.text, List.append_assoc] at text
    have taken := (List.append_cancel_left text).symm
    have unended := not_ends_of_beyond inked (by rw [read]; exact List.mem_cons_self) beyond
      fun d member => blank d (by rw [taken]; exact List.mem_append_left _ member)
    exact absurd (.inl kind) unended

theorem cut_off (inked : g.Inked) {x : Context} {s blanks later : List Char} (blank : ∀ d ∈ blanks, isBlank d = true)
    (parts : ∀ d ∈ (blanks ++ later).head?, g.Parts d) {front rest : List Token}
    (read : tokensFrom g x (s ++ (blanks ++ later)) = front ++ rest) (text : flatten front = s ++ blanks) :
    CutOff blanks (tokensFrom g x s) front := by
  have unbridged := unbridged_of_apart (fun marker known d head => (parts d head).apart marker known) s
  have reads := read_on inked.toLegible unbridged (fun _ _ d head => (parts d head).letter) x
  refine cut_off_of_read_on inked blank reads read ⟨x, by rw [flatten_tokens_from]⟩ ?_
  rw [flatten_tokens_from, text]

section

variable {x : Context} {s : List Char} {b : Char} {done more : List Token}

theorem tokens_from_front (legible : g.Legible) (plain : g.regexLiterals = false) (apart : ∀ marker ∈ g.delimiters, b ∉ marker)
    (read : tokensFrom g x s = done ++ .code b :: more) : tokensFrom g x (flatten done ++ [b]) = done ++ [.code b] := by
  have sealed := sealed_of_last apart (flatten done)
  have slashless := slashless_of_plain plain (flatten done ++ [b])
  have split : flatten done ++ [b] ++ flatten more = s := by
    have all := flatten_tokens_from g x s
    rwa [read, flatten_append, flatten_cons, Token.text, ← List.append_assoc] at all
  rcases tokens_from_sealed legible sealed slashless x (flatten more) with ⟨y, whole⟩ | ⟨front, l, text, _, _, _, _, alone, _⟩
  · rw [split, read, List.append_cons] at whole
    refine front_eq_of_flatten whole (fun t member => ?_) (fun t => filled_of_mem_tokens) ?_
    · refine filled_of_mem_tokens (g := g) (x := x) (s := s) ?_
      rw [read, List.append_cons]
      exact List.mem_append_left _ member
    · rw [flatten_tokens_from, flatten_append]
      rfl
  · -- The last byte would lie in a literal, alone and with more behind it.
    have code := code_at_sealed legible sealed slashless (by simp) x (flatten more)
    have filled : (Token.literal l text).IsFilled :=
      filled_of_mem_tokens (g := g) (x := x) (s := flatten done ++ [b]) (by rw [alone]; exact List.mem_concat_self)
    have text_eq : flatten front ++ text = flatten done ++ [b] := by
      have all := flatten_tokens_from g x (flatten done ++ [b])
      rwa [alone, flatten_append, flatten_cons, Token.text, show flatten [] = [] from rfl, List.append_nil] at all
    have here : codeAt (done ++ .code b :: more) (size (flatten done ++ [b]) - 1) = true :=
      code_at_end (t := .code b) trivial done more
    have other : codeAt (front ++ [.literal l text]) (size (flatten front ++ text) - 1) = false := code_at_end filled front []
    rw [split, read, here, alone, ← text_eq, other] at code
    contradiction

theorem tokens_from_cut (legible : g.Legible) (plain : g.regexLiterals = false) (apart : ∀ marker ∈ g.delimiters, b ∉ marker)
    (read : tokensFrom g x s = done ++ .code b :: more) (later : List Char) :
    ∃ y, tokensFrom g x (flatten done ++ [b] ++ later) = done ++ .code b :: tokensFrom g y later := by
  have alone := tokens_from_front legible plain apart read
  rcases tokens_from_sealed legible (sealed_of_last apart (flatten done)) (slashless_of_plain plain _) x later with
    ⟨y, whole⟩ | ⟨front, l, text, _, _, _, _, last, _⟩
  · exact ⟨y, by rw [whole, alone, List.append_assoc]; rfl⟩
  · rw [alone] at last
    cases (List.append_inj' last rfl).2

end

end

end SnippetReview
