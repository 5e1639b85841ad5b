import SnippetReview.Proofs.Lexing.Stripping

/- The second reading of a text whose comments are blanked out, in step with the first one. It reads the
   blanks of a comment as code and everything else as before, if and only if no slash is read differently. -/

set_option autoImplicit false

namespace SnippetReview

open Text

namespace Context

def afterAll (y : Context) (cs : List Char) : Context := cs.foldl afterCode y

theorem after_all_append (y : Context) (s t : List Char) : y.afterAll (s ++ t) = (y.afterAll s).afterAll t :=
  List.foldl_append

theorem after_all_before (y : Context) (cs : List Char) (c : Char) : (y.afterAll (cs ++ [c])).before = some c := by
  rw [after_all_append]
  rfl

def afterVisible (y : Context) : Token → Context
  | .code c => y.afterCode c
  | .literal l text => if l.kind = .comment then y.afterAll (text.flatMap blanked) else .afterLiteral l.kind text

theorem after_visible_comment (y : Context) {l : Literal} (comment : l.kind = .comment) (text : List Char) :
    y.afterVisible (.literal l text) = y.afterAll (text.flatMap blanked) := if_pos comment

theorem after_visible_kept (y : Context) {l : Literal} (kept : l.kind ≠ .comment) (text : List Char) :
    y.afterVisible (.literal l text) = .afterLiteral l.kind text := if_neg kept

end Context

namespace Token

def reread : Token → List Token
  | code c => [code c]
  | literal l text => if l.kind = .comment then (text.flatMap blanked).map code else [literal l text]

theorem reread_comment {l : Literal} (comment : l.kind = .comment) (text : List Char) :
    (literal l text).reread = (text.flatMap blanked).map code := if_pos comment

theorem reread_kept {l : Literal} (kept : l.kind ≠ .comment) (text : List Char) :
    (literal l text).reread = [literal l text] := if_neg kept

end Token

-- Every slash is read as before: none of the code begins a regular expression now, and each of those that
-- began one still may.
def Steady (g : Grammar) (y : Context) : List Token → Prop
  | [] => True
  | .code c :: rest => y.slash? g (c :: visibleText rest) = none ∧ Steady g (y.afterCode c) rest
  | .literal l text :: rest =>
    (l.kind = .regex → y.regexMayStart = true) ∧ Steady g (y.afterVisible (.literal l text)) rest

theorem visible_text_cons (t : Token) (rest : List Token) : visibleText (t :: rest) = t.visible ++ visibleText rest :=
  rfl

theorem faded_visible (tokens : List Token) : Faded (flatten tokens) (visibleText tokens) := by
  induction tokens with
  | nil => exact .nil
  | cons t rest ih =>
    cases t with
    | code c => exact ih.prepend [c]
    | literal l text =>
      rw [visible_text_cons]
      by_cases comment : l.kind = .comment
      · rw [Token.visible_comment comment]
        exact (Faded.blank_all text).append ih
      · rw [Token.visible_kept comment]
        exact ih.prepend text

theorem size_visible (tokens : List Token) : size (visibleText tokens) = size (flatten tokens) := by
  induction tokens with
  | nil => rfl
  | cons t rest ih =>
    rw [visible_text_cons, flatten, List.flatMap_cons, ← flatten, size_append, size_append, ih]
    cases t with
    | code c => rfl
    | literal l text =>
      by_cases comment : l.kind = .comment
      · rw [Token.visible_comment comment, size_flat_map_blanked]
        rfl
      · rw [Token.visible_kept comment]
        rfl

theorem faded_from (g : Grammar) (x : Context) (s : List Char) : Faded s (visibleText (tokensFrom g x s)) := by
  have faded := faded_visible (tokensFrom g x s)
  rwa [flatten_tokens_from] at faded

theorem same_openings_of_before {g : Grammar} {x y : Context} (same : x.before = y.before) (s : List Char) :
    SameOpenings g x y s := by
  intro style _ _
  rw [same]

theorem not_prefix_of_break {marker rest : List Char} (marks : Marker marker) {b : Char} (blank : isFaded b = true) :
    marker.isPrefixOf (b :: rest) = false := by
  obtain ⟨m, more, parts⟩ := List.exists_cons_of_ne_nil marks.1
  have marked := not_faded_of_unblank marks.2 m (by rw [parts]; exact List.mem_cons_self)
  have different : m ≠ b := by
    intro same
    rw [same, blank] at marked
    contradiction
  rw [parts, List.isPrefixOf_cons_cons, beq_eq_false_iff_ne.mpr different, Bool.false_and]

theorem literal_at_blank {g : Grammar} (legible : g.Legible) (y : Context) {b : Char} (blank : isFaded b = true)
    (rest : List Char) : y.literal? g (b :: rest) = none := by
  have clear : g.beginsComment (b :: rest) = false := by
    unfold Grammar.beginsComment
    rw [Bool.or_eq_false_iff, List.any_eq_false, List.any_eq_false]
    refine ⟨fun marker member => ?_, fun markers member => ?_⟩
    · rw [not_prefix_of_break (legible.line marker member) blank]
      exact Bool.false_ne_true
    · rw [not_prefix_of_break (legible.block markers member).1 blank]
      exact Bool.false_ne_true
  have unquoted : y.quote? g (b :: rest) = none := by
    unfold Context.quote?
    rw [List.find?_eq_none]
    intro style member
    rw [not_prefix_of_break (legible.quote style member).1 blank]
    exact Bool.false_ne_true
  rw [Context.literal_slash clear unquoted]
  unfold Context.slash?
  split
  · rename_i split
    rw [List.cons.injEq] at split
    rw [split.1] at blank
    exact absurd blank (by decide)
  · rfl

theorem tokens_from_blanks {g : Grammar} (legible : g.Legible) (y : Context) (blanks rest : List Char)
    (faded : ∀ b ∈ blanks, isFaded b = true) :
    tokensFrom g y (blanks ++ rest) = blanks.map .code ++ tokensFrom g (y.afterAll blanks) rest := by
  induction blanks generalizing y with
  | nil => rfl
  | cons b blanks ih =>
    rw [List.cons_append, tokens_from_code (literal_at_blank legible y (faded b List.mem_cons_self) _),
      ih _ fun c member => faded c (List.mem_cons_of_mem b member)]
    rfl

theorem comment_extent {g : Grammar} {s : List Char} (begins : g.beginsComment s = true) :
    ∃ taken later, s = taken ++ later ∧ (g.commentAt s).length = taken.length ∧
      (later = [] ∨ later.head? = some '\n' ∨ ∃ markers ∈ g.blockComments, markers.2 <:+ taken) := by
  unfold Grammar.commentAt
  by_cases line : g.lineComments.any (·.isPrefixOf s) = true
  · rw [if_pos line]
    refine ⟨s.takeWhile (· != '\n'), s.dropWhile (· != '\n'), by simp, by simp [line_length_eq], ?_⟩
    have stops := List.head?_dropWhile_not (· != '\n') s
    cases rest : s.dropWhile (· != '\n') with
    | nil => exact .inl rfl
    | cons b more =>
      rw [rest] at stops
      simp only [List.head?_cons, bne_eq_false_iff_eq] at stops
      exact .inr (.inl (by rw [stops]; rfl))
  · rw [if_neg line]
    unfold Grammar.beginsComment at begins
    rw [Bool.or_eq_true, or_iff_right line, List.any_eq_true] at begins
    cases found : g.blockComments.find? (·.1.isPrefixOf s) with
    | none =>
      obtain ⟨markers, member, stands⟩ := begins
      exact absurd stands (List.find?_eq_none.mp found markers member)
    | some markers =>
      obtain ⟨taken, later, split, length, ending⟩ := block_length_spec markers.1 markers.2 g.nestedComments 1 0
        markers.1.length (s.drop markers.1.length)
      have stands : markers.1 <+: s := by simpa using List.find?_some found
      obtain ⟨inner, whole⟩ := stands
      rw [← whole, List.drop_left] at split
      refine ⟨markers.1 ++ taken, later, ?_, ?_, ?_⟩
      · rw [← whole, split, List.append_assoc]
      · rw [List.length_append, ← length]
      · rcases ending with ended | suffix
        · exact .inl ended
        · exact .inr (.inr ⟨markers, List.mem_of_find?_eq_some found, suffix.trans (List.suffix_append _ _)⟩)

theorem same_openings_after_comment {g : Grammar} {c : Char} {rest : List Char} (legible : g.Legible)
    (begins : g.beginsComment (c :: rest) = true) {z : Context} {b : Char} (before : z.before = some b)
    (blank : isFaded b = true) :
    SameOpenings g (.afterLiteral .comment (c :: rest.take ((g.commentAt (c :: rest)).length - 1))) z
      (rest.drop ((g.commentAt (c :: rest)).length - 1)) := by
  obtain ⟨split, length⟩ := literal_split legible (Context.literal_comment {} begins)
  obtain ⟨taken, later, split', length', ending⟩ := comment_extent begins
  have same := List.append_inj (split.symm.trans split') (length.trans length')
  rw [same.1, same.2]
  intro style member stands
  have marks := (legible.quote style member).1
  have breaks : isIdentChar b = false := by
    unfold isFaded at blank
    rw [Bool.or_eq_true, beq_iff_eq, beq_iff_eq] at blank
    rcases blank with rfl | rfl <;> decide
  rw [before, Literal.QuoteStyle.opens_after_break style breaks]
  rcases ending with rfl | feed | ⟨markers, block, suffix⟩
  · exact absurd (List.isPrefixOf_iff_prefix.mp stands) (by simpa using marks.1)
  · cases later with
    | nil => contradiction
    | cons d later =>
      rw [List.head?_cons, Option.some.injEq] at feed
      rw [not_prefix_of_break marks (by rw [feed]; rfl)] at stands
      contradiction
  · rcases legible.afterBlock with plain | breaking
    · exact Literal.QuoteStyle.opens_after_plain (plain style member) _
    · obtain ⟨front, whole⟩ := suffix
      have closing := (legible.block markers block).2.1
      rw [Context.afterLiteral, ← whole, List.getLast?_append]
      cases last : markers.2.getLast? with
      | none => exact absurd (List.getLast?_eq_none_iff.mp last) closing
      | some d => exact Literal.QuoteStyle.opens_after_break style (breaking markers block d last)

theorem same_openings_after {g : Grammar} {x y : Context} {c : Char} {rest : List Char} {l : Literal}
    (legible : g.Legible) (found : x.literal? g (c :: rest) = some l) :
    SameOpenings g (.afterLiteral l.kind (c :: rest.take (l.length - 1)))
      (y.afterVisible (.literal l (c :: rest.take (l.length - 1)))) (rest.drop (l.length - 1)) := by
  by_cases comment : l.kind = .comment
  · rcases Context.literal_cases found with ⟨begins, rfl⟩ | ⟨_, style, _, rfl⟩ | ⟨_, _, slash⟩
    · rw [Context.after_visible_comment y comment, comment]
      obtain ⟨front, b, last⟩ : ∃ front b,
          (c :: rest.take ((g.commentAt (c :: rest)).length - 1)).flatMap blanked = front ++ [b] := by
        refine ⟨_, _, (List.dropLast_concat_getLast ?_).symm⟩
        rw [List.flatMap_cons]
        simp [blanked_ne_nil]
      rw [last]
      refine same_openings_after_comment legible begins (Context.after_all_before y front b) ?_
      exact faded_flat_map_blanked _ b (by rw [last]; simp)
    · contradiction
    · obtain ⟨_, _, _, _, _, _, rfl⟩ := Context.slash_some slash
      contradiction
  · rw [Context.after_visible_kept y comment]
    exact same_openings_of_before rfl _

theorem reread_tokens {g : Grammar} (legible : g.Legible) (x : Context) (s : List Char) (y : Context)
    (same : SameOpenings g x y s) (steady : Steady g y (tokensFrom g x s)) :
    tokensFrom g y (visibleText (tokensFrom g x s)) = (tokensFrom g x s).flatMap Token.reread := by
  induction x, s using tokensFrom.induct g generalizing y with
  | case1 x =>
    rw [tokens_from_nil]
    exact tokens_from_nil g y
  | case2 x c rest l found text ih =>
    rw [tokens_from_literal found] at steady ⊢
    have next := ih (y.afterVisible (.literal l text)) (same_openings_after legible found) steady.2
    obtain ⟨split, length⟩ := literal_split legible found
    rw [visible_text_cons, List.flatMap_cons]
    by_cases comment : l.kind = .comment
    · rw [Context.after_visible_comment y comment] at next
      rw [Token.visible_comment comment, Token.reread_comment comment,
        tokens_from_blanks legible y _ _ (faded_flat_map_blanked _), next]
    · rw [Context.after_visible_kept y comment] at next
      rw [Token.visible_kept comment, Token.reread_kept comment]
      rw [split] at found same
      have again := literal_faded legible (faded_from g (.afterLiteral l.kind text) _) found length same comment steady.1
      rw [tokens_from_append (List.cons_ne_nil _ _) length again, next]
      rfl
  | case3 x c rest none ih =>
    rw [tokens_from_code none] at steady ⊢
    have next := ih (y.afterCode c) (same_openings_of_before rfl _) steady.2
    obtain ⟨clear, unquoted, _⟩ := Context.literal_none none
    have whole : Faded (c :: rest) (c :: visibleText (tokensFrom g (x.afterCode c) rest)) :=
      (faded_from g _ _).prepend [c]
    have again : y.literal? g (c :: visibleText (tokensFrom g (x.afterCode c) rest)) = .none := by
      rw [Context.literal_slash (clear_of_faded legible whole clear) (quote_none_of_faded legible whole same unquoted)]
      exact steady.1
    rw [visible_text_cons, List.flatMap_cons]
    exact (tokens_from_code again).trans (congrArg (List.cons (Token.code c)) next)

end SnippetReview
