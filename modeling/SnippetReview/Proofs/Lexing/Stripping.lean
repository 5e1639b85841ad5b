import SnippetReview.Proofs.Lexing.Blanking

set_option autoImplicit false

namespace SnippetReview

open Text

theorem comment_length_pos {g : Grammar} {c : Char} {rest : List Char} (legible : g.Legible)
    (begins : g.beginsComment (c :: rest) = true) : 1 ≤ (g.commentAt (c :: rest)).length := by
  unfold Grammar.commentAt
  by_cases line : g.lineComments.any (·.isPrefixOf (c :: rest)) = true
  · rw [if_pos line]
    obtain ⟨marker, member, stands⟩ := List.any_eq_true.mp line
    have marks := legible.line marker member
    obtain ⟨m, more, parts⟩ := List.exists_cons_of_ne_nil marks.1
    rw [parts, List.isPrefixOf_cons_cons, Bool.and_eq_true, beq_iff_eq] at stands
    have noFeed : c ≠ '\n' := stands.1 ▸ (marks.2 m (by rw [parts]; exact List.mem_cons_self)).2
    simp [line_length_eq, noFeed]
  · rw [if_neg line]
    unfold Grammar.beginsComment at begins
    rw [Bool.or_eq_true, or_iff_right line, List.any_eq_true] at begins
    cases found : g.blockComments.find? (·.1.isPrefixOf (c :: rest)) with
    | none =>
      obtain ⟨markers, member, stands⟩ := begins
      exact absurd stands (List.find?_eq_none.mp found markers member)
    | some markers =>
      obtain ⟨taken, _, _, length, _⟩ := block_length_spec markers.1 markers.2 g.nestedComments 1 0 markers.1.length
        ((c :: rest).drop markers.1.length)
      have positive := List.length_pos_iff.mpr (legible.block markers (List.mem_of_find?_eq_some found)).1.1
      simp only [length]
      omega

theorem comment_length_le (g : Grammar) (s : List Char) :
    (g.commentAt s).length ≤ s.length := by
  unfold Grammar.commentAt
  by_cases line : g.lineComments.any (·.isPrefixOf s) = true
  · rw [if_pos line]
    simpa [line_length_eq] using (List.takeWhile_prefix (p := (· != '\n')) (l := s)).length_le
  · rw [if_neg line]
    cases found : g.blockComments.find? (·.1.isPrefixOf s) with
    | none => exact Nat.zero_le _
    | some markers =>
      obtain ⟨taken, rest, split, length, _⟩ := block_length_spec markers.1 markers.2 g.nestedComments 1 0
        markers.1.length (s.drop markers.1.length)
      have stands : markers.1 <+: s := by simpa using List.find?_some found
      have fits := stands.length_le
      have sum := congrArg List.length split
      simp only [List.length_drop, List.length_append] at sum
      simp only [length]
      omega

theorem literal_length {g : Grammar} {x : Context} {c : Char} {rest : List Char} {l : Literal} (legible : g.Legible)
    (found : x.literal? g (c :: rest) = some l) : 1 ≤ l.length ∧ l.length ≤ (c :: rest).length := by
  rcases Context.literal_cases found with ⟨begins, rfl⟩ | ⟨_, style, quote, rfl⟩ | ⟨_, _, slash⟩
  · exact ⟨comment_length_pos legible begins, comment_length_le g _⟩
  · have member := List.mem_of_find?_eq_some quote
    have stands := List.find?_some quote
    rw [Bool.and_eq_true] at stands
    have positive := List.length_pos_iff.mpr (legible.quote style member).1.1
    have fits := (List.isPrefixOf_iff_prefix.mp stands.1).length_le
    have low := quoted_length_le style false 0 style.opening.length ((c :: rest).drop style.opening.length)
    have high := quoted_length_bound style false 0 style.opening.length ((c :: rest).drop style.opening.length)
    rw [List.length_drop] at high
    simp only [Literal.quoted]
    omega
  · obtain ⟨tail, n, same, _, _, length, rfl⟩ := Context.slash_some slash
    have bound := regex_length_bound false false 0 n tail length
    rw [same, List.length_cons]
    simp only
    omega

theorem literal_split {g : Grammar} {x : Context} {c : Char} {rest : List Char} {l : Literal} (legible : g.Legible)
    (found : x.literal? g (c :: rest) = some l) :
    c :: rest = (c :: rest.take (l.length - 1)) ++ rest.drop (l.length - 1) ∧
      (c :: rest.take (l.length - 1)).length = l.length := by
  obtain ⟨low, high⟩ := literal_length legible found
  refine ⟨by simp, ?_⟩
  rw [List.length_cons] at *
  rw [List.length_take]
  omega

theorem take_while_faded {p : Char → Bool} {rest rest' : List Char} (excludes : ∀ b, isFaded b = true → p b = false)
    (faded : Faded rest rest') (body : List Char) (whole : ((body ++ rest).takeWhile p).length = body.length) :
    ((body ++ rest').takeWhile p).length = body.length := by
  induction body with
  | nil =>
    rw [List.nil_append] at *
    cases rest with
    | nil => rw [faded.eq_nil]; rfl
    | cons c rest =>
      obtain ⟨b, rest'', split, same⟩ := faded.head_cases
      have stops : p c = false := by
        cases accepted : p c with
        | false => rfl
        | true => simp [accepted] at whole
      have stops' : p b = false := by
        rcases same with rfl | blank
        · exact stops
        · exact excludes b blank
      rw [split, List.takeWhile_cons, stops']
      rfl
  | cons b body ih =>
    rw [List.cons_append, List.takeWhile_cons] at *
    cases accepted : p b with
    | false => simp [accepted] at whole
    | true =>
      simp only [accepted, if_true, List.length_cons, Nat.add_right_cancel_iff] at whole ⊢
      exact ih whole

theorem not_alpha_of_faded (b : Char) (blank : isFaded b = true) : b.isAlpha = false := by
  unfold isFaded at blank
  rw [Bool.or_eq_true, beq_iff_eq, beq_iff_eq] at blank
  rcases blank with rfl | rfl <;> decide

theorem regex_length_faded {rest rest' : List Char} (faded : Faded rest rest') (inClass skip : Bool) (count : Nat)
    (body : List Char) (extent : Literal.regexLength inClass skip count (body ++ rest) = some (count + body.length)) :
    Literal.regexLength inClass skip count (body ++ rest') = some (count + body.length) := by
  induction body generalizing inClass skip count with
  | nil =>
    have bound := (regex_length_bound inClass skip count (count + 0) _ extent).1
    omega
  | cons b body ih =>
    have shift : count + (b :: body).length = count + 1 + body.length := by
      rw [List.length_cons]
      omega
    rw [List.cons_append, regex_length_cons] at *
    cases step : regexNext inClass skip b with
    | some next =>
      simp only [step, shift] at extent ⊢
      exact ih next.1 next.2 (count + 1) extent
    | none =>
      simp only [step, shift] at extent ⊢
      split at extent
      · contradiction
      · have whole : ((body ++ rest).takeWhile Char.isAlpha).length = body.length := by
          have same := Option.some.inj extent
          omega
        rename_i closes
        rw [if_neg closes, take_while_faded not_alpha_of_faded faded body whole]

theorem literal_faded {g : Grammar} {x y : Context} {text rest rest' : List Char} {l : Literal}
    (legible : g.Legible) (faded : Faded rest rest') (found : x.literal? g (text ++ rest) = some l)
    (length : text.length = l.length) (same : SameOpenings g x y (text ++ rest)) (kept : l.kind ≠ .comment)
    (slash : l.kind = .regex → y.regexMayStart = true) : y.literal? g (text ++ rest') = some l := by
  have whole : Faded (text ++ rest) (text ++ rest') := faded.prepend text
  rcases Context.literal_cases found with ⟨begins, rfl⟩ | ⟨clear, style, quote, rfl⟩ | ⟨clear, unquoted, slashed⟩
  · exact absurd (Context.kind_comment_at g _) kept
  · have member := List.mem_of_find?_eq_some quote
    have stands := List.find?_some quote
    rw [Bool.and_eq_true] at stands
    have low := quoted_length_le style false 0 style.opening.length ((text ++ rest).drop style.opening.length)
    have fits : style.opening.length ≤ text.length := by
      rw [length]
      exact low
    have stands' := is_prefix_append (prefix_of_length_le stands.1 fits) rest'
    rw [Context.literal_quoted (clear_of_faded legible whole clear)
      (quote_some_of_faded legible whole same quote stands')]
    -- The rest of the literal, from behind its opening delimiter.
    have extent : Literal.quotedLength style false 0 style.opening.length (text.drop style.opening.length ++ rest) =
        (style.opening.length + (text.drop style.opening.length).length,
          (Literal.quotedLength style false 0 style.opening.length
            ((text ++ rest).drop style.opening.length)).2) := by
      rw [← List.drop_append_of_le_length fits]
      refine Prod.ext ?_ rfl
      simp only [List.length_drop, length, Literal.quoted]
      omega
    have extent' := quoted_length_faded (legible.quote style member).2 faded false 0 style.opening.length _ _ extent
    rw [← extent, ← List.drop_append_of_le_length fits, ← List.drop_append_of_le_length fits] at extent'
    rw [Literal.quoted, extent']
    rfl
  · obtain ⟨tail, n, parts, enabled, _, extent, rfl⟩ := Context.slash_some slashed
    cases text with
    | nil => simp at length
    | cons c body =>
      rw [List.cons_append, List.cons.injEq] at parts
      obtain ⟨rfl, rfl⟩ := parts
      have bodyLength : n = 0 + body.length := by simpa using length.symm
      rw [bodyLength] at extent
      have extent' := regex_length_faded faded false false 0 body extent
      rw [Context.literal_slash (clear_of_faded legible whole clear)
        (quote_none_of_faded legible whole same unquoted), List.cons_append, Context.slash?, enabled, slash rfl,
        extent', bodyLength]
      rfl

end SnippetReview
