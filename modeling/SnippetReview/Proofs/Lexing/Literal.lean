import SnippetReview.Proofs.Lexing.Token

set_option autoImplicit false

namespace SnippetReview

open Text

theorem find_congr {α : Type} {p q : α → Bool} {list : List α} (same : ∀ a ∈ list, p a = q a) :
    list.find? p = list.find? q := by
  induction list with
  | nil => rfl
  | cons a rest ih =>
    rw [List.find?_cons, List.find?_cons, same a List.mem_cons_self, ih fun b member => same b (List.mem_cons_of_mem a member)]

namespace Literal

def quoted (style : QuoteStyle) (s : List Char) : Literal :=
  let extent := quotedLength style false 0 style.opening.length (s.drop style.opening.length)
  ⟨.quoted, extent.1, style.opening.length, if extent.2 then style.closing.length else 0⟩

end Literal

namespace Grammar

def beginsComment (g : Grammar) (s : List Char) : Bool :=
  g.lineComments.any (·.isPrefixOf s) || g.blockComments.any (·.1.isPrefixOf s)

def commentAt (g : Grammar) (s : List Char) : Literal :=
  if g.lineComments.any (·.isPrefixOf s) then ⟨.comment, Literal.lineLength 0 s, 0, 0⟩
  else
    match g.blockComments.find? (·.1.isPrefixOf s) with
    | some (opening, closing) =>
      ⟨.comment, Literal.blockLength opening closing g.nestedComments 1 0 opening.length (s.drop opening.length),
        opening.length, 0⟩
    | none => ⟨.comment, 0, 0, 0⟩

end Grammar

namespace Context

def quote? (g : Grammar) (x : Context) (s : List Char) : Option QuoteStyle :=
  g.quotes.find? fun style => style.opening.isPrefixOf s && Literal.QuoteStyle.opensAfter style x.before

def regexMayStart (x : Context) : Bool := Literal.regexMayStart x.code x.last

def slash? (g : Grammar) (x : Context) : List Char → Option Literal
  | '/' :: rest =>
    if g.regexLiterals && x.regexMayStart then
      (Literal.regexLength false false 0 rest).map fun length => ⟨.regex, length + 1, 1, 0⟩
    else none
  | _ => none

theorem literal_eq (g : Grammar) (x : Context) (s : List Char) :
    x.literal? g s =
      if g.beginsComment s then some (g.commentAt s)
      else
        match x.quote? g s with
        | some style => some (.quoted style s)
        | none => x.slash? g s := by
  unfold literal? Literal.at? Grammar.beginsComment Grammar.commentAt
  by_cases line : g.lineComments.any (·.isPrefixOf s) = true
  · simp [line]
  · rw [if_neg line, if_neg line]
    cases block : g.blockComments.find? (·.1.isPrefixOf s) with
    | some markers =>
      have member : g.blockComments.any (·.1.isPrefixOf s) = true :=
        List.any_eq_true.mpr ⟨markers, List.mem_of_find?_eq_some block, by simpa using List.find?_some block⟩
      simp [member]
    | none =>
      have absent : g.blockComments.any (·.1.isPrefixOf s) = false := by
        rw [List.any_eq_false]
        exact fun markers member => List.find?_eq_none.mp block markers member
      have clear : g.lineComments.any (·.isPrefixOf s) = false := Bool.eq_false_iff.mpr line
      rw [clear, absent, quote?]
      cases g.quotes.find? fun style => style.opening.isPrefixOf s && Literal.QuoteStyle.opensAfter style x.before with
      | some style => rfl
      | none =>
        rw [slash?.eq_def]
        rfl

theorem literal_comment {g : Grammar} {s : List Char} (x : Context) (begins : g.beginsComment s = true) :
    x.literal? g s = some (g.commentAt s) := by
  rw [literal_eq, if_pos begins]

theorem literal_quoted {g : Grammar} {x : Context} {s : List Char} {style : QuoteStyle}
    (clear : g.beginsComment s = false) (found : x.quote? g s = some style) :
    x.literal? g s = some (.quoted style s) := by
  rw [literal_eq, if_neg (by simp [clear]), found]

theorem literal_slash {g : Grammar} {x : Context} {s : List Char}
    (clear : g.beginsComment s = false) (unquoted : x.quote? g s = none) : x.literal? g s = x.slash? g s := by
  rw [literal_eq, if_neg (by simp [clear]), unquoted]

theorem kind_comment_at (g : Grammar) (s : List Char) : (g.commentAt s).kind = .comment := by
  unfold Grammar.commentAt
  split
  · rfl
  · split <;> rfl

theorem closing_comment_at (g : Grammar) (s : List Char) : (g.commentAt s).closing = 0 := by
  unfold Grammar.commentAt
  split
  · rfl
  · split <;> rfl

theorem slash_some {g : Grammar} {x : Context} {s : List Char} {l : Literal} (found : x.slash? g s = some l) :
    ∃ rest n, s = '/' :: rest ∧ g.regexLiterals = true ∧ x.regexMayStart = true ∧
      Literal.regexLength false false 0 rest = some n ∧ l = ⟨.regex, n + 1, 1, 0⟩ := by
  unfold slash? at found
  split at found
  · rename_i rest
    split at found
    · rename_i may
      obtain ⟨n, length, same⟩ := Option.map_eq_some_iff.mp found
      rw [Bool.and_eq_true] at may
      exact ⟨rest, n, rfl, may.1, may.2, length, same.symm⟩
    · contradiction
  · contradiction

theorem literal_cases {g : Grammar} {x : Context} {s : List Char} {l : Literal} (found : x.literal? g s = some l) :
    (g.beginsComment s = true ∧ l = g.commentAt s) ∨
    (g.beginsComment s = false ∧ ∃ style, x.quote? g s = some style ∧ l = .quoted style s) ∨
    (g.beginsComment s = false ∧ x.quote? g s = none ∧ x.slash? g s = some l) := by
  rw [literal_eq] at found
  by_cases begins : g.beginsComment s = true
  · rw [if_pos begins] at found
    exact .inl ⟨begins, (Option.some.inj found).symm⟩
  · rw [if_neg begins] at found
    have clear : g.beginsComment s = false := Bool.eq_false_iff.mpr begins
    cases quote : x.quote? g s with
    | some style =>
      rw [quote] at found
      exact .inr (.inl ⟨clear, style, rfl, (Option.some.inj found).symm⟩)
    | none =>
      rw [quote] at found
      exact .inr (.inr ⟨clear, rfl, found⟩)

theorem literal_none {g : Grammar} {x : Context} {s : List Char} (none : x.literal? g s = none) :
    g.beginsComment s = false ∧ x.quote? g s = .none ∧ x.slash? g s = .none := by
  rw [literal_eq] at none
  by_cases begins : g.beginsComment s = true
  · rw [if_pos begins] at none
    contradiction
  · rw [if_neg begins] at none
    cases quote : x.quote? g s with
    | some style =>
      rw [quote] at none
      contradiction
    | none =>
      rw [quote] at none
      exact ⟨Bool.eq_false_iff.mpr begins, rfl, none⟩

theorem literal_kind {g : Grammar} {x : Context} {s : List Char} {l : Literal}
    (found : x.literal? g s = some l) : l.kind ≠ .code := by
  rcases literal_cases found with ⟨_, rfl⟩ | ⟨_, style, _, rfl⟩ | ⟨_, _, slash⟩
  · rw [kind_comment_at]
    decide
  · exact SegmentKind.noConfusion
  · obtain ⟨_, _, _, _, _, _, rfl⟩ := slash_some slash
    exact SegmentKind.noConfusion

end Context

theorem literal_of_mem_tokens {g : Grammar} {x : Context} {s : List Char} {l : Literal} {text : List Char}
    (member : Token.literal l text ∈ tokensFrom g x s) :
    ∃ (y : Context) (c : Char) (rest : List Char), y.literal? g (c :: rest) = some l ∧
      text = c :: rest.take (l.length - 1) := by
  induction x, s using tokensFrom.induct g with
  | case1 x =>
    rw [tokens_from_nil] at member
    contradiction
  | case2 x c rest l' found text' ih =>
    rw [tokens_from_literal found, List.mem_cons] at member
    rcases member with same | later
    · obtain ⟨rfl, rfl⟩ := Token.literal.inj same
      exact ⟨x, c, rest, found, rfl⟩
    · exact ih later
  | case3 x c rest none ih =>
    rw [tokens_from_code none, List.mem_cons] at member
    rcases member with same | later
    · contradiction
    · exact ih later

theorem kind_of_mem_tokens {g : Grammar} {x : Context} {s : List Char} {l : Literal} {text : List Char}
    (member : Token.literal l text ∈ tokensFrom g x s) : l.kind ≠ .code := by
  obtain ⟨y, c, rest, found, -⟩ := literal_of_mem_tokens member
  exact Context.literal_kind found

def Token.IsFilled : Token → Prop
  | .code _ => True
  | .literal l text => l.kind ≠ .code ∧ text ≠ []

theorem filled_of_mem_tokens {g : Grammar} {x : Context} {s : List Char} {t : Token} (member : t ∈ tokensFrom g x s) :
    t.IsFilled := by
  cases t with
  | code c => trivial
  | literal l text =>
    obtain ⟨y, c, rest, found, rfl⟩ := literal_of_mem_tokens member
    exact ⟨Context.literal_kind found, List.cons_ne_nil _ _⟩

theorem Token.IsFilled.nonempty {t : Token} (filled : t.IsFilled) : t.text ≠ [] := by
  cases t with
  | code c => exact List.cons_ne_nil c []
  | literal l text => exact filled.2

-- A text in which no blank is left by blanking a comment: no space and no line feed.
def Unblank (s : List Char) : Prop := ∀ c ∈ s, c ≠ ' ' ∧ c ≠ '\n'

instance (s : List Char) : Decidable (Unblank s) := inferInstanceAs (Decidable (∀ c ∈ s, c ≠ ' ' ∧ c ≠ '\n'))

def Marker (s : List Char) : Prop := s ≠ [] ∧ Unblank s

instance (s : List Char) : Decidable (Marker s) := inferInstanceAs (Decidable (s ≠ [] ∧ Unblank s))

namespace Literal.QuoteStyle

def plain (style : QuoteStyle) : Bool := opensAfter style (some 'a')

theorem opens_after_plain {style : QuoteStyle} (isPlain : plain style = true) (before : Option Char) :
    opensAfter style before = true := by
  unfold plain opensAfter at *
  have letter : isIdentChar 'a' = true := by decide
  simp only [Option.map_some, Option.getD_some, letter, Bool.not_true, Bool.or_false] at isPlain
  rw [isPlain, Bool.true_or]

theorem opens_after_break {c : Char} (style : QuoteStyle) (breaks : isIdentChar c = false) :
    opensAfter style (some c) = true := by
  simp [opensAfter, breaks]

end Literal.QuoteStyle

-- What every grammar keeps to: its delimiters are markers; a quote after a block comment opens as after a
-- blank; where a slash can begin a literal, comments begin and end with one.
structure Grammar.Legible (g : Grammar) : Prop where
  line : ∀ marker ∈ g.lineComments, Marker marker
  block : ∀ markers ∈ g.blockComments, Marker markers.1 ∧ Marker markers.2
  quote : ∀ style ∈ g.quotes, Marker style.opening ∧ Marker style.closing
  afterBlock : (∀ style ∈ g.quotes, Literal.QuoteStyle.plain style = true) ∨
    ∀ markers ∈ g.blockComments, ∀ c ∈ markers.2.getLast?, isIdentChar c = false
  slash : g.regexLiterals = true → ['/', '/'] ∈ g.lineComments ∧
    (∀ marker ∈ g.lineComments, marker.head? = some '/') ∧
    ∀ markers ∈ g.blockComments, markers.1.head? = some '/' ∧ markers.2 = ['*', '/']

theorem line_length_eq (count : Nat) (s : List Char) :
    Literal.lineLength count s = count + (s.takeWhile (· != '\n')).length := by
  induction s generalizing count with
  | nil => rfl
  | cons c rest ih =>
    by_cases feed : c = '\n'
    · simp [Literal.lineLength, feed]
    · simp [Literal.lineLength, feed, ih]
      omega

theorem block_length_spec (opening closing : List Char) (nested : Bool) (depth skip count : Nat) (s : List Char) :
    ∃ taken rest, s = taken ++ rest ∧
      Literal.blockLength opening closing nested depth skip count s = count + taken.length ∧
      (rest = [] ∨ closing <:+ taken) := by
  induction s generalizing depth skip count with
  | nil => exact ⟨[], [], rfl, rfl, .inl rfl⟩
  | cons c tail ih =>
    -- In every case but the last closing delimiter the reader goes on behind `c`.
    have goOn : ∀ depth skip, ∃ taken rest, c :: tail = taken ++ rest ∧
        Literal.blockLength opening closing nested depth skip (count + 1) tail = count + taken.length ∧
        (rest = [] ∨ closing <:+ taken) := by
      intro depth skip
      obtain ⟨taken, rest, split, length, ending⟩ := ih depth skip (count + 1)
      refine ⟨c :: taken, rest, by rw [split, List.cons_append], by rw [length, List.length_cons]; omega, ?_⟩
      exact ending.imp_right fun suffix => suffix.trans (List.suffix_cons c taken)
    cases skip with
    | succ skip => exact goOn depth skip
    | zero =>
      rw [Literal.blockLength]
      by_cases closes : closing.isPrefixOf (c :: tail) = true
      · by_cases last : depth ≤ 1
        · obtain ⟨rest, split⟩ := List.isPrefixOf_iff_prefix.mp closes
          rw [if_pos closes, if_pos last]
          exact ⟨closing, rest, split.symm, rfl, .inr (List.suffix_refl closing)⟩
        · rw [if_pos closes, if_neg last]
          exact goOn _ _
      · rw [if_neg closes]
        split
        · exact goOn _ _
        · exact goOn _ _

def doubledAt (style : QuoteStyle) (s : List Char) : Bool :=
  style.escape == .doubled && (style.closing ++ style.closing).isPrefixOf s

def closesAt (style : QuoteStyle) (escaped : Bool) (s : List Char) : Bool :=
  style.closing.isPrefixOf s && !(style.escape == .backslash && escaped)

def breaksAt (style : QuoteStyle) (c : Char) : Bool := !style.multiline && c == '\n'

theorem doubled_at_iff {style : QuoteStyle} {s : List Char} :
    doubledAt style s = true ↔ style.escape = .doubled ∧ style.closing ++ style.closing <+: s := by
  rw [doubledAt, Bool.and_eq_true, beq_iff_eq, List.isPrefixOf_iff_prefix]

theorem doubled_at_eq (style : QuoteStyle) (s : List Char) :
    doubledAt style s =
      (style.closing.isPrefixOf s && style.escape == .doubled && style.closing.isPrefixOf (s.drop style.closing.length)) := by
  rw [Bool.eq_iff_iff, doubled_at_iff, Bool.and_eq_true, Bool.and_eq_true, beq_iff_eq, List.isPrefixOf_iff_prefix,
    List.isPrefixOf_iff_prefix]
  constructor
  · rintro ⟨kind, later, rfl⟩
    rw [List.append_assoc, List.drop_left]
    exact ⟨⟨List.prefix_append _ _, kind⟩, List.prefix_append _ _⟩
  · rintro ⟨⟨⟨later, rfl⟩, kind⟩, again⟩
    rw [List.drop_left] at again
    exact ⟨kind, List.prefix_append_right_inj _ |>.mpr again⟩

theorem prefix_of_closes {style : QuoteStyle} {escaped : Bool} {s : List Char} (closes : closesAt style escaped s = true) :
    style.closing <+: s :=
  List.isPrefixOf_iff_prefix.mp (Bool.and_eq_true_iff.mp closes).1

theorem quoted_length_cons (style : QuoteStyle) (escaped : Bool) (count : Nat) (c : Char) (tail : List Char) :
    Literal.quotedLength style escaped 0 count (c :: tail) =
      if doubledAt style (c :: tail) then
        Literal.quotedLength style false (2 * style.closing.length - 1) (count + 1) tail
      else if closesAt style escaped (c :: tail) then (count + style.closing.length, true)
      else if breaksAt style c then (count, false)
      else Literal.quotedLength style (c == '\\' && !escaped) 0 (count + 1) tail := by
  rw [Literal.quotedLength, doubled_at_eq]
  rfl

theorem quoted_length_le (style : QuoteStyle) (escaped : Bool) (skip count : Nat) (s : List Char) :
    count ≤ (Literal.quotedLength style escaped skip count s).1 := by
  induction s generalizing escaped skip count with
  | nil => exact Nat.le_refl count
  | cons c rest ih =>
    cases skip with
    | succ skip => exact Nat.le_trans (Nat.le_succ count) (ih false skip (count + 1))
    | zero =>
      rw [quoted_length_cons]
      split
      · exact Nat.le_trans (Nat.le_succ count) (ih _ _ _)
      · split
        · exact Nat.le_add_right _ _
        · split
          · exact Nat.le_refl count
          · exact Nat.le_trans (Nat.le_succ count) (ih _ _ _)

-- Skipped characters count, as far as there are any.
theorem quoted_length_skip (style : QuoteStyle) (escaped : Bool) (skip count : Nat) (s : List Char)
    (enough : skip ≤ s.length) : count + skip ≤ (Literal.quotedLength style escaped skip count s).1 := by
  induction skip generalizing escaped count s with
  | zero => exact quoted_length_le style escaped 0 count s
  | succ skip ih =>
    cases s with
    | nil => simp at enough
    | cons c rest =>
      have rest := ih false (count + 1) rest (by simpa using enough)
      rw [Literal.quotedLength]
      omega

theorem quoted_length_bound (style : QuoteStyle) (escaped : Bool) (skip count : Nat) (s : List Char) :
    (Literal.quotedLength style escaped skip count s).1 ≤ count + s.length := by
  induction s generalizing escaped skip count with
  | nil => exact Nat.le_refl count
  | cons c rest ih =>
    have goOn : ∀ escaped skip, (Literal.quotedLength style escaped skip (count + 1) rest).1 ≤
        count + (c :: rest).length := by
      intro escaped skip
      have bound := ih escaped skip (count + 1)
      rw [List.length_cons]
      omega
    cases skip with
    | succ skip => exact goOn false skip
    | zero =>
      rw [quoted_length_cons]
      split
      · exact goOn _ _
      · split
        · rename_i closes
          exact Nat.add_le_add_left (prefix_of_closes closes).length_le count
        · split
          · exact Nat.le_add_right _ _
          · exact goOn _ _

theorem quoted_length_closed (style : QuoteStyle) (escaped : Bool) (skip count : Nat) (s : List Char) {n : Nat}
    (closed : Literal.quotedLength style escaped skip count s = (n, true)) :
    ∃ taken rest, s = taken ++ rest ∧ n = count + taken.length ∧ style.closing <:+ taken := by
  induction s generalizing escaped skip count with
  | nil => cases closed
  | cons c tail ih =>
    have goOn : ∀ escaped skip, Literal.quotedLength style escaped skip (count + 1) tail = (n, true) →
        ∃ taken rest, c :: tail = taken ++ rest ∧ n = count + taken.length ∧ style.closing <:+ taken := by
      intro escaped skip later
      obtain ⟨taken, rest, split, length, ending⟩ := ih escaped skip (count + 1) later
      refine ⟨c :: taken, rest, by rw [split, List.cons_append], by rw [length, List.length_cons]; omega, ?_⟩
      exact ending.trans (List.suffix_cons c taken)
    cases skip with
    | succ skip => exact goOn false skip closed
    | zero =>
      rw [quoted_length_cons] at closed
      split at closed
      · exact goOn _ _ closed
      · split at closed
        next closes =>
          obtain ⟨rest, split⟩ := prefix_of_closes closes
          exact ⟨style.closing, rest, split.symm, (congrArg Prod.fst closed).symm, List.suffix_refl _⟩
        next =>
          split at closed
          · cases closed
          · exact goOn _ _ closed

theorem closed_parts {g : Grammar} {x : Context} {c : Char} {tail : List Char} {l : Literal}
    (found : x.literal? g (c :: tail) = some l) (kind : l.kind = .quoted) (closed : l.closing ≠ 0) :
    ∃ style ∈ g.quotes, ∃ content, c :: tail.take (l.length - 1) = style.opening ++ content ++ style.closing ∧
      l.opening = style.opening.length ∧ l.closing = style.closing.length := by
  rcases Context.literal_cases found with ⟨_, rfl⟩ | ⟨_, style, quote, rfl⟩ | ⟨_, _, slash⟩
  · rw [Context.kind_comment_at] at kind
    contradiction
  · have member := List.mem_of_find?_eq_some quote
    have stands := List.find?_some quote
    rw [Bool.and_eq_true] at stands
    obtain ⟨later, whole⟩ := List.isPrefixOf_iff_prefix.mp stands.1
    have behind : (c :: tail).drop style.opening.length = later := by rw [← whole, List.drop_left]
    rw [Literal.quoted] at closed ⊢
    cases extent : Literal.quotedLength style false 0 style.opening.length ((c :: tail).drop style.opening.length) with
    | mk n ends =>
      rw [extent] at closed
      cases ends with
      | false => exact absurd rfl closed
      | true =>
        -- What was read behind the opening delimiter ends with the closing one.
        obtain ⟨taken, rest, split, length, content, ending⟩ := quoted_length_closed _ _ _ _ _ extent
        rw [behind] at split
        have low : n ≠ 0 := by
          have size := congrArg List.length ending
          rw [List.length_append] at size
          have some : style.closing.length ≠ 0 := closed
          omega
        obtain ⟨n, rfl⟩ := Nat.exists_eq_succ_of_ne_zero low
        refine ⟨style, member, content, ?_, rfl, rfl⟩
        dsimp only
        rw [Nat.succ_sub_one, ← List.take_succ_cons, ← whole, split, ← List.append_assoc,
          show n + 1 = (style.opening ++ taken).length by rw [List.length_append]; exact length, List.take_left, ← ending,
          List.append_assoc]
  · obtain ⟨_, _, _, _, _, _, rfl⟩ := Context.slash_some slash
    contradiction

-- Where a regular expression literal goes on after a character: inside a class or not, and with an escaped
-- character or not.
def regexNext (inClass skip : Bool) (c : Char) : Option (Bool × Bool) :=
  if skip then some (inClass, false)
  else if c == '\n' then none
  else if c == '\\' then some (inClass, true)
  else if c == '[' then some (true, false)
  else if c == ']' then some (false, false)
  else if c == '/' && !inClass then none
  else some (inClass, false)

theorem regex_length_cons (inClass skip : Bool) (count : Nat) (c : Char) (rest : List Char) :
    Literal.regexLength inClass skip count (c :: rest) =
      match regexNext inClass skip c with
      | some next => Literal.regexLength next.1 next.2 (count + 1) rest
      | none => if c = '\n' ∨ count = 0 then none else some (count + 1 + (rest.takeWhile Char.isAlpha).length) := by
  cases skip with
  | true => rfl
  | false =>
    by_cases feed : c = '\n'
    · simp [Literal.regexLength, regexNext, feed]
    · by_cases escape : c = '\\'
      · simp [Literal.regexLength, regexNext, escape]
      · by_cases opens : c = '['
        · simp [Literal.regexLength, regexNext, opens]
        · by_cases closes : c = ']'
          · simp [Literal.regexLength, regexNext, closes]
          · by_cases ends : (c == '/' && !inClass) = true
            · simp only [Literal.regexLength, regexNext, beq_iff_eq, feed, escape, opens, closes, ends, if_true,
                if_false, Bool.false_eq_true, false_or]
            · simp only [Literal.regexLength, regexNext, beq_iff_eq, feed, escape, opens, closes, ends, if_false,
                Bool.false_eq_true]

theorem regex_length_bound (inClass skip : Bool) (count n : Nat) (s : List Char)
    (found : Literal.regexLength inClass skip count s = some n) : count < n ∧ n ≤ count + s.length := by
  induction s generalizing inClass skip count with
  | nil => contradiction
  | cons c rest ih =>
    rw [regex_length_cons] at found
    cases step : regexNext inClass skip c with
    | some next =>
      rw [step] at found
      have bound := ih next.1 next.2 (count + 1) found
      rw [List.length_cons]
      omega
    | none =>
      simp only [step] at found
      split at found
      · contradiction
      · have flags := (List.takeWhile_prefix (p := Char.isAlpha) (l := rest)).length_le
        have same := Option.some.inj found
        rw [List.length_cons]
        omega

theorem slash_of_regex_end {inClass skip : Bool} {c : Char} (ends : regexNext inClass skip c = none) (feed : c ≠ '\n') :
    c = '/' := by
  cases here : c == '/' with
  | true => exact beq_iff_eq.mp here
  | false =>
    unfold regexNext at ends
    simp only [beq_iff_eq, feed, here, Bool.false_and, Bool.false_eq_true, if_false] at ends
    repeat' split at ends
    all_goals contradiction

theorem regex_length_ends (inClass skip : Bool) (count n : Nat) (s : List Char)
    (found : Literal.regexLength inClass skip count s = some n) :
    ∃ taken rest, s = taken ++ rest ∧ n = count + taken.length ∧ ∃ c ∈ taken.getLast?, c = '/' ∨ c.isAlpha = true := by
  induction s generalizing inClass skip count with
  | nil => contradiction
  | cons c tail ih =>
    rw [regex_length_cons] at found
    cases step : regexNext inClass skip c with
    | some next =>
      rw [step] at found
      obtain ⟨taken, rest, split, length, d, last, ends⟩ := ih next.1 next.2 (count + 1) found
      refine ⟨c :: taken, rest, by rw [split, List.cons_append], by rw [length, List.length_cons]; omega, d, ?_, ends⟩
      rw [List.getLast?_cons, Option.mem_def.mp last]
      rfl
    | none =>
      simp only [step] at found
      split at found
      · contradiction
      next inside =>
        rw [not_or] at inside
        have length := Option.some.inj found
        refine ⟨c :: tail.takeWhile Char.isAlpha, tail.dropWhile Char.isAlpha, ?_, ?_, ?_⟩
        · rw [List.cons_append, List.takeWhile_append_dropWhile]
        · rw [← length, List.length_cons]
          omega
        · rw [List.getLast?_cons]
          cases flags : (tail.takeWhile Char.isAlpha).getLast? with
          | none => exact ⟨c, rfl, .inl (slash_of_regex_end step inside.1)⟩
          | some d =>
            exact ⟨d, rfl, .inr (List.all_eq_true.mp List.all_takeWhile d (List.mem_of_getLast? flags))⟩

end SnippetReview
