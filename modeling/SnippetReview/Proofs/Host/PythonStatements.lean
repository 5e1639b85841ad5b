import Mathlib
import SnippetReview.Proofs.Host.PythonMerging
import SnippetReview.Proofs.Host.RenderedValues

set_option autoImplicit false

namespace SnippetReview

open Text

namespace Python

structure Between (p : Part) : Prop where
  neat : p.Neat
  passes : Passes grammar isItem false p.text

section

variable {f : Lambda} (function : f.WellFormed) {trail : List Char} (blanks : Blanks trail)

include function blanks

theorem passes_tail : Passes grammar isItem false (':' :: (f.gap ++ f.body) ++ trail) := by
  have colon : Passes grammar isItem true [':'] := passes_unsigned fun c member => by
    rw [List.mem_singleton.mp member]
    decide
  have body := passes_expression legible contextless function.body
  have inside := (passes_blanks admits_item function.gap).append body (.inl rfl)
  exact passes_trailing admits_item (colon.append inside (.inl rfl)) blanks

theorem between_rest (q : Part) (more : List Part) (known : ∀ p ∈ q :: more, p ∈ f.first :: f.others) :
    ∀ p ∈ f.rest trail q more, Between p := by
  induction more generalizing q with
  | nil =>
    have inFunction := known q List.mem_cons_self
    have passes := function.passes_part inFunction admits_item item_of_parameter
    have lead := (function.blanks q inFunction).1
    intro p member
    rw [List.mem_singleton.mp member]
    refine ⟨⟨lead.blank, blanks.blank, .inr ?_⟩, ?_⟩
    · have ends : f.body <:+ q.body ++ q.trail ++ ':' :: (f.gap ++ f.body) := ⟨q.body ++ q.trail ++ ':' :: f.gap, by simp⟩
      rcases function.bodies q inFunction with ⟨none, noTrail⟩ | inked
      · have colon : Inked [':'] := ⟨by simp, by decide, by decide⟩
        exact inked_of_ends colon function.inked ⟨f.gap ++ f.body, by simp [none, noTrail]⟩ ends
      · exact inked_of_ends inked function.inked ⟨q.trail ++ ':' :: (f.gap ++ f.body), by simp⟩ ends
    · have whole := passes.append (passes_tail function blanks) (.inr ⟨':', rfl, by decide⟩)
      simpa [Part.text] using whole
  | cons r more ih =>
    intro p member
    rcases List.mem_cons.mp member with rfl | later
    · have inFunction := known p List.mem_cons_self
      obtain ⟨lead, trail'⟩ := function.blanks p inFunction
      exact ⟨⟨lead.blank, trail'.blank, (function.bodies p inFunction).imp_left (·.1)⟩,
        function.passes_part inFunction admits_item item_of_parameter⟩
    · exact ih r (fun p inside => known p (List.mem_cons_of_mem q inside)) p later

end

section

variable {a : Argument} (formed : a.WellFormed)

include formed

theorem passes_head : Passes grammar isItem true (a.lead ++ a.head) := by
  have sign : Passes grammar isItem true ['='] := passes_unsigned fun c member => by
    rw [List.mem_singleton.mp member]
    decide
  have blanks : ∀ s ∈ [a.lead, a.before, a.after, a.trail], Passes grammar isItem true s :=
    fun s member => passes_blanks admits_item (formed.blanks s member)
  have bound := (passes_written formed admits_item).append (sign.append (blanks a.after (by simp)) (.inl rfl)) (.inl rfl)
  exact (blanks a.lead (by simp)).append bound (.inl rfl)

theorem between_begins {s trail : List Char} (inked : ∃ last, Inked last ∧ last <:+ s)
    (passes : Passes grammar isItem false (s ++ trail)) (blanks : Blanks trail) : Between ⟨a.lead, a.head ++ s, trail⟩ := by
  obtain ⟨last, inked, ends⟩ := inked
  refine ⟨⟨(formed.blanks a.lead (by simp)).blank, blanks.blank, .inr ?_⟩, ?_⟩
  · have front : a.key <+: a.head ++ s := ⟨a.before ++ '=' :: a.after ++ s, by simp [Argument.head]⟩
    exact inked_of_ends (inked_of_name formed.key) inked front (ends.trans (List.suffix_append _ _))
  · have whole := (passes_head formed).append passes (.inl rfl)
    simpa [Part.text] using whole

theorem between_argument : ∀ p ∈ a.parts, Between p := by
  have trail := formed.blanks a.trail (by simp)
  have value := formed.value
  unfold Argument.parts Argument.text
  cases shape : a.value with
  | plain s =>
    rw [shape] at value
    obtain ⟨inked, expression, _⟩ := value
    intro p member
    rw [List.mem_singleton.mp member]
    exact between_begins formed ⟨s, inked, List.suffix_refl s⟩
      (passes_trailing admits_item (passes_expression legible contextless expression) trail) trail
  | function f =>
    rw [shape] at value
    have function : f.WellFormed := value
    have word : Passes grammar isItem true "lambda".toList := passes_names admits_item (by decide)
    have first : Passes grammar isItem false ("lambda".toList ++ f.first.text) :=
      word.append (function.passes_part List.mem_cons_self admits_item item_of_parameter) (.inl rfl)
    dsimp only
    unfold Lambda.parts
    cases others : f.others with
    | nil =>
      intro p member
      rw [List.mem_singleton.mp member]
      have ends : f.body <:+ f.text := ⟨"lambda".toList ++ Part.join ',' f.first f.others ++ ':' :: f.gap, by simp [Lambda.text_eq]⟩
      have whole := first.append (passes_tail function trail) (.inr ⟨':', rfl, by decide⟩)
      refine between_begins formed ⟨f.body, function.inked, ends⟩ ?_ trail
      simpa [Lambda.text_eq, others, Part.join] using whole
    | cons q more =>
      intro p member
      rcases List.mem_cons.mp member with rfl | later
      · have begun := function.begun (by rw [others]; exact List.cons_ne_nil q more)
        have inked := (function.bodies f.first List.mem_cons_self).resolve_left fun none => begun none.1
        have ends : f.first.body <:+ "lambda".toList ++ f.first.lead ++ f.first.body := List.suffix_append _ _
        have passes : Passes grammar isItem false ("lambda".toList ++ f.first.lead ++ f.first.body ++ f.first.trail) := by
          simpa [Part.text] using first
        have begins := between_begins formed ⟨f.first.body, inked, ends⟩ passes (function.blanks f.first List.mem_cons_self).2
        simpa using begins
      · exact between_rest function trail q more (fun p inside => List.mem_cons_of_mem _ (others ▸ inside)) p later

end

section

variable {call : Call} (formed : call.WellFormed)

include formed

theorem between_call : ∀ p ∈ call.parts, Between p := by
  intro p member
  rcases List.mem_append.mp member with argument | ending
  · obtain ⟨a, among, inside⟩ := List.mem_flatMap.mp argument
    exact between_argument (formed.arguments a among) p inside
  · obtain ⟨blanks, same, rfl⟩ := List.mem_map.mp ending
    have blank := formed.ending blanks (Option.mem_toList.mp same)
    refine ⟨⟨blank.blank, by simp, .inl rfl⟩, ?_⟩
    have passes := (passes_blanks admits_item blank).restrict false
    simpa [Part.text] using passes

theorem passes_call : Passes grammar (fun c => !isClosing c) false call.text := by
  have between := between_call formed
  have comma : Passes grammar (fun c => !isClosing c) true [','] := passes_unsigned fun c member => by
    rw [List.mem_singleton.mp member]
    decide
  cases parts : call.parts with
  | nil =>
    rw [call.text_empty parts]
    exact passes_nil _ _ _
  | cons p rest =>
    rw [parts] at between
    rw [call.text_eq p rest parts]
    exact passes_join comma (by decide) p rest fun q member =>
      (between q member).passes.weaken fun c item => (Bool.and_eq_true_iff.mp item).2

theorem separates : Separates grammar grammar.separators ',' call.parts := by
  have between := between_call formed
  have commas : grammar.separators = [','] := by decide
  have wider : ∀ c, isItem c = true → (!grammar.separators.contains c) = true := by
    intro c item
    simpa [commas] using (Bool.and_eq_true_iff.mp item).1
  exact ⟨by decide, by decide, by decide, by decide, by decide, by decide, fun p member => (between p member).neat,
    fun p member => (between p member).passes.weaken wider, fun feed => absurd feed (by decide)⟩

theorem split_call (start : Nat) : split grammar start call.text grammar.separators = Part.places start [] call.parts := by
  have separates := separates formed
  cases parts : call.parts with
  | nil =>
    rw [call.text_empty parts, split_nil]
    rfl
  | cons p rest =>
    rw [parts] at separates
    rw [call.text_eq p rest parts, split_parts start separates, Part.pieces_eq]

theorem statements_eq (start : Nat) (later : List Char) : Extraction.statements grammar (Slice.place start call.text later) =
    mergeContinuations grammar ((Part.places start [] call.parts).filter unspread) := by
  have merges : grammar.mergesContinuations = true := rfl
  rw [Extraction.statements, Slice.text_place, Slice.start_place, split_call formed, if_pos merges]
  rfl

theorem statements_settled (settled : call.Settled) (start : Nat) (later : List Char) :
    Extraction.statements grammar (Slice.place start call.text later) = Argument.statements start
      (Part.followed (call.ending.toList.map fun blanks => ⟨blanks, [], []⟩)) call.arguments := by
  have none : ∀ last ∈ ([] : List Slice).head?, awaitsBody grammar last.text = false := fun last absent => nomatch absent
  have merged := merge_arguments formed.arguments settled start
    (Part.followed (call.ending.toList.map fun blanks => ⟨blanks, [], []⟩)) none
  have ending : ∀ offset, Part.places offset [] (call.ending.toList.map fun blanks => ⟨blanks, [], []⟩) = [] := by
    intro offset
    cases call.ending <;> simp [Part.places, Part.piece]
  rw [statements_eq formed, Call.parts, Part.places_append, ending, List.append_nil, List.append_nil, mergeContinuations,
    merged, List.append_nil, List.reverse_reverse]

end

theorem merge_stops {items done : List Slice} (ordered : items.Pairwise fun earlier later => earlier.start ≤ later.stop)
    (behind : ∀ last ∈ done, ∀ item ∈ items, last.start ≤ item.stop) :
    ∀ merged ∈ items.foldl (mergeInto grammar) done, ∃ item ∈ items ++ done, item.stop = merged.stop := by
  induction items generalizing done with
  | nil => exact fun merged member => ⟨merged, member, rfl⟩
  | cons item rest ih =>
    obtain ⟨first, others⟩ := List.pairwise_cons.mp ordered
    -- Each statement so far begins where one of the pieces does, and the latest ends where the latest piece does.
    have step : ∀ last ∈ mergeInto grammar done item, (last.stop = item.stop ∨ last ∈ done) ∧
        (last.start = item.start ∨ ∃ old ∈ done, last.start = old.start) := by
      cases done with
      | nil =>
        intro last member
        obtain rfl := List.mem_singleton.mp member
        exact ⟨.inl rfl, .inl rfl⟩
      | cons old earlier =>
        have reach := behind old List.mem_cons_self item List.mem_cons_self
        intro last member
        rw [mergeInto] at member
        split at member
        next =>
          rcases List.mem_cons.mp member with rfl | before
          · refine ⟨.inl ?_, .inr ⟨old, List.mem_cons_self, rfl⟩⟩
            change old.start + (item.stop - old.start) = item.stop
            omega
          · exact ⟨.inr (List.mem_cons_of_mem old before), .inr ⟨last, List.mem_cons_of_mem old before, rfl⟩⟩
        next =>
          rcases List.mem_cons.mp member with rfl | before
          · exact ⟨.inl rfl, .inl rfl⟩
          · exact ⟨.inr before, .inr ⟨last, before, rfl⟩⟩
    have behind' : ∀ last ∈ mergeInto grammar done item, ∀ next ∈ rest, last.start ≤ next.stop := by
      intro last member next among
      rcases (step last member).2 with here | ⟨old, before, same⟩
      · rw [here]
        exact first next among
      · rw [same]
        exact behind old before next (List.mem_cons_of_mem item among)
    intro merged member
    obtain ⟨piece, among, stop⟩ := ih others behind' merged member
    rcases List.mem_append.mp among with later | so
    · exact ⟨piece, List.mem_append_left _ (List.mem_cons_of_mem item later), stop⟩
    · rcases (step piece so).1 with here | before
      · exact ⟨item, by simp, here.symm.trans stop⟩
      · exact ⟨piece, List.mem_append_right _ before, stop⟩

theorem places_ordered (offset : Nat) (later : List Char) (parts : List Part) :
    (Part.places offset later parts).Pairwise fun earlier later => earlier.start ≤ later.stop := by
  induction parts generalizing offset with
  | nil => exact .nil
  | cons p rest ih =>
    rw [Part.places, List.pairwise_append]
    refine ⟨?_, ih _, ?_⟩
    · rw [Part.piece]
      split
      · exact .nil
      · exact List.pairwise_singleton _ _
    · intro first here second further
      have bounds := Part.places_bounds _ _ _ further
      have whole : first ∈ Part.places offset (Part.followed rest ++ later) [p] := by rwa [Part.places, Part.places, List.append_nil]
      have bounds' := Part.places_bounds _ _ _ whole
      rw [Part.size_followed_singleton] at bounds'
      omega

theorem rest_concat (f : Lambda) (trail : List Char) (q : Part) (more : List Part) : ∃ front last,
    (q :: more).getLast? = some last ∧ f.rest trail q more =
      front ++ [⟨last.lead, last.body ++ last.trail ++ ':' :: (f.gap ++ f.body), trail⟩] := by
  induction more generalizing q with
  | nil => exact ⟨[], q, rfl, rfl⟩
  | cons r more ih =>
    obtain ⟨front, last, ends, split⟩ := ih r
    refine ⟨q :: front, last, ?_, ?_⟩
    · rwa [List.getLast?_cons_cons]
    · rw [Lambda.rest, split, List.cons_append]

theorem unsettled_part {a : Argument} (unsettled : ¬ a.value.Settled) : ∃ front p, a.parts = front ++ [p] ∧
    p.body.head? = some '*' ∧ p.trail = a.trail := by
  cases shape : a.value with
  | plain s =>
    rw [shape] at unsettled
    exact absurd trivial unsettled
  | function f =>
    have several : ¬ ∀ p ∈ f.others.getLast?, p.body.head? ≠ some '*' := by rwa [shape] at unsettled
    cases others : f.others with
    | nil => exact absurd (fun p none => by rw [others] at none; contradiction) several
    | cons q more =>
      obtain ⟨front, last, ends, split⟩ := rest_concat f a.trail q more
      have star : last.body.head? = some '*' := by
        by_contra other
        refine several fun p same => ?_
        rw [others, ends] at same
        rwa [← Option.some.inj same]
      obtain ⟨rest, body⟩ : ∃ rest, last.body = '*' :: rest := List.head?_eq_some_iff.mp star
      have parts : a.parts = f.parts a.lead a.head a.trail := by simp [Argument.parts, shape]
      refine ⟨⟨a.lead, a.head ++ "lambda".toList ++ f.first.lead ++ f.first.body, f.first.trail⟩ :: front,
        ⟨last.lead, last.body ++ last.trail ++ ':' :: (f.gap ++ f.body), a.trail⟩, ?_, ?_, rfl⟩
      · rw [parts, Lambda.parts, others]
        dsimp only
        rw [split]
        rfl
      · rw [body]
        rfl

theorem placed_mem (before : List Argument) (a : Argument) (after : List Argument) (offset : Nat) :
    (a, offset + size (Part.followed (before.flatMap Argument.parts)) + size (a.lead ++ a.head)) ∈
      Argument.placed offset (before ++ a :: after) := by
  induction before generalizing offset with
  | nil => exact List.mem_cons_self
  | cons b before ih =>
    have next := ih (offset + size b.whole + 1)
    have sum : offset + size (Part.followed ((b :: before).flatMap Argument.parts)) =
        offset + size b.whole + 1 + size (Part.followed (before.flatMap Argument.parts)) := by
      rw [List.flatMap_cons, Part.followed_append, size_append, b.size_followed_parts]
      omega
    rw [sum]
    exact List.mem_cons_of_mem _ next

theorem statements_unsettled {call : Call} (formed : call.WellFormed) (unsettled : ¬ call.Settled) (start : Nat)
    (later : List Char) : ∃ p ∈ Argument.placed start call.arguments,
      ∀ item ∈ Extraction.statements grammar (Slice.place start call.text later), item.stop ≠ p.2 + size p.1.value.text := by
  obtain ⟨a, among, open'⟩ : ∃ a ∈ call.arguments, ¬ a.value.Settled := by
    by_contra none
    exact unsettled fun a member => by_contra fun other => none ⟨a, member, other⟩
  obtain ⟨before, after, arguments⟩ := List.append_of_mem among
  obtain ⟨front, p, parts, star, trail⟩ := unsettled_part open'
  let ending : List Part := call.ending.toList.map fun blanks => ⟨blanks, [], []⟩
  let left := before.flatMap Argument.parts ++ front
  let right := after.flatMap Argument.parts ++ ending
  have whole : call.parts = left ++ ([p] ++ right) := by
    simp [Call.parts, arguments, parts, left, right, ending]
  have place : start + size (Part.followed left) + size p.lead + size p.body =
      start + size (Part.followed (before.flatMap Argument.parts)) + size (a.lead ++ a.head) + size a.value.text := by
    have sum := a.size_followed_parts
    rw [parts, Part.followed_append, size_append, Part.size_followed_singleton, Part.size_text, trail] at sum
    simp only [left, Part.followed_append, Argument.whole, Argument.text, size_append] at sum ⊢
    omega
  refine ⟨_, arguments ▸ placed_mem before a after start, ?_⟩
  intro item member same
  rw [statements_eq formed, mergeContinuations, List.mem_reverse] at member
  have nothing : ∀ last ∈ ([] : List Slice), ∀ item ∈ (Part.places start [] call.parts).filter unspread,
      last.start ≤ item.stop := fun last none => absurd none List.not_mem_nil
  obtain ⟨piece, inside, stop⟩ := merge_stops ((places_ordered start [] call.parts).filter unspread) nothing item member
  rw [List.append_nil, List.mem_filter, whole, Part.places_append left, Part.places_append [p]] at inside
  obtain ⟨cut, kept⟩ := inside
  rw [same, ← place] at stop
  -- The pieces before end too early, the piece itself is left out, and those behind it end too late.
  rcases List.mem_append.mp cut with earlier | further
  · have bounds := Part.places_bounds _ _ _ earlier
    omega
  · rcases List.mem_append.mp further with here | behind
    · have among : piece ∈ (p.piece (start + size (Part.followed left)) (Part.followed right ++ [])).filter unspread := by
        rw [Part.places, Part.places, List.append_nil] at here
        exact List.mem_filter.mpr ⟨here, kept⟩
      rw [piece_left_out (.inr star)] at among
      contradiction
    · have bounds := Part.places_bounds _ _ _ behind
      rw [Part.size_followed_singleton, Part.size_text] at bounds
      omega

end Python

end SnippetReview
