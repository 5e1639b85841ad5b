import Mathlib.Tactic.SplitIfs
import SnippetReview.Proofs.Lexing.Literal

set_option autoImplicit false

namespace SnippetReview

open Text

inductive Faded : List Char → List Char → Prop where
  | nil : Faded [] []
  | keep (c : Char) {s t : List Char} : Faded s t → Faded (c :: s) (c :: t)
  | blank (c : Char) {s t : List Char} : Faded s t → Faded (c :: s) (blanked c ++ t)

def isFaded (c : Char) : Bool := c == ' ' || c == '\n'

theorem faded_blanked (c : Char) : ∀ b ∈ blanked c, isFaded b = true := by
  intro b member
  unfold blanked at member
  split at member
  · rw [List.mem_singleton.mp member]
    rfl
  · rw [(List.mem_replicate.mp member).2]
    rfl

theorem blanked_ne_nil (c : Char) : blanked c ≠ [] := by
  unfold blanked
  have positive := Char.utf8Size_pos c
  split
  · simp
  · rw [Ne, List.replicate_eq_nil_iff]
    omega

theorem size_blanked (c : Char) : size (blanked c) = c.utf8Size := by
  unfold blanked
  split
  · rename_i feed
    rw [beq_iff_eq.mp feed, size_singleton]
  · exact size_replicate_blank c.utf8Size

theorem size_flat_map_blanked (s : List Char) : size (s.flatMap blanked) = size s := by
  induction s with
  | nil => rfl
  | cons c rest ih => rw [List.flatMap_cons, size_append, size_blanked, ih, size_cons]

theorem faded_flat_map_blanked (s : List Char) : ∀ b ∈ s.flatMap blanked, isFaded b = true := by
  intro b member
  obtain ⟨c, _, inside⟩ := List.mem_flatMap.mp member
  exact faded_blanked c b inside

theorem not_faded_of_unblank {s : List Char} (unblank : Unblank s) : ∀ c ∈ s, isFaded c = false := by
  intro c member
  have marks := unblank c member
  simp [isFaded, marks.1, marks.2]

namespace Faded

theorem refl (s : List Char) : Faded s s := by
  induction s with
  | nil => exact .nil
  | cons c rest ih => exact .keep c ih

theorem append {s t s' t' : List Char} (first : Faded s t) (second : Faded s' t') : Faded (s ++ s') (t ++ t') := by
  induction first with
  | nil => exact second
  | keep c _ ih => exact .keep c ih
  | blank c _ ih =>
    rw [List.append_assoc]
    exact .blank c ih

theorem prepend (kept : List Char) {s t : List Char} (rest : Faded s t) : Faded (kept ++ s) (kept ++ t) :=
  (refl kept).append rest

theorem blank_all (s : List Char) : Faded s (s.flatMap blanked) := by
  induction s with
  | nil => exact .nil
  | cons c rest ih => exact .blank c ih

theorem marker_reflects {marker s t : List Char} (faded : Faded s t) (unblank : Unblank marker)
    (stands : marker.isPrefixOf t = true) : marker.isPrefixOf s = true := by
  induction faded generalizing marker with
  | nil => exact stands
  | keep c _ ih =>
    cases marker with
    | nil => rfl
    | cons m marker =>
      rw [List.isPrefixOf_cons_cons, Bool.and_eq_true] at stands ⊢
      exact ⟨stands.1, ih (fun b member => unblank b (List.mem_cons_of_mem m member)) stands.2⟩
  | blank c _ _ =>
    cases marker with
    | nil => rfl
    | cons m marker =>
      have marked := not_faded_of_unblank unblank m List.mem_cons_self
      obtain ⟨b, more, split⟩ := List.exists_cons_of_ne_nil (blanked_ne_nil c)
      have blank := faded_blanked c b (by rw [split]; exact List.mem_cons_self)
      rw [split, List.cons_append, List.isPrefixOf_cons_cons, Bool.and_eq_true, beq_iff_eq] at stands
      rw [stands.1, blank] at marked
      contradiction

theorem eq_nil {t : List Char} (faded : Faded [] t) : t = [] := by
  cases faded
  rfl

theorem line_feed {s t : List Char} (faded : Faded ('\n' :: s) t) : ∃ t', t = '\n' :: t' ∧ Faded s t' := by
  cases faded with
  | keep _ rest => exact ⟨_, rfl, rest⟩
  | blank _ rest => exact ⟨_, rfl, rest⟩

theorem head_cases {c : Char} {s t : List Char} (faded : Faded (c :: s) t) :
    ∃ b t', t = b :: t' ∧ (b = c ∨ isFaded b = true) := by
  cases faded with
  | keep _ _ => exact ⟨c, _, rfl, .inl rfl⟩
  | blank _ _ =>
    obtain ⟨b, more, split⟩ := List.exists_cons_of_ne_nil (blanked_ne_nil c)
    rw [split]
    exact ⟨b, _, rfl, .inr (faded_blanked c b (by rw [split]; exact List.mem_cons_self))⟩

end Faded

theorem begins_comment_reflects {g : Grammar} {s t : List Char} (legible : g.Legible) (faded : Faded s t)
    (begins : g.beginsComment t = true) : g.beginsComment s = true := by
  unfold Grammar.beginsComment at *
  rw [Bool.or_eq_true, List.any_eq_true, List.any_eq_true] at *
  rcases begins with ⟨marker, member, stands⟩ | ⟨markers, member, stands⟩
  · exact .inl ⟨marker, member, faded.marker_reflects (legible.line marker member).2 stands⟩
  · exact .inr ⟨markers, member, faded.marker_reflects (legible.block markers member).1.2 stands⟩

theorem clear_of_faded {g : Grammar} {s t : List Char} (legible : g.Legible) (faded : Faded s t)
    (clear : g.beginsComment s = false) : g.beginsComment t = false := by
  rw [Bool.eq_false_iff] at *
  exact fun begins => clear (begins_comment_reflects legible faded begins)

-- Two places at which the same delimiters open a literal, as far as they stand in a text.
def SameOpenings (g : Grammar) (x y : Context) (s : List Char) : Prop :=
  ∀ style ∈ g.quotes, style.opening.isPrefixOf s = true →
    Literal.QuoteStyle.opensAfter style x.before = Literal.QuoteStyle.opensAfter style y.before

theorem find_eq_some_of_imp {α : Type} {p q : α → Bool} {xs : List α} {a : α} (found : xs.find? p = some a)
    (implies : ∀ b ∈ xs, q b = true → p b = true) (holds : q a = true) : xs.find? q = some a := by
  rw [List.find?_eq_some_iff_append] at *
  obtain ⟨_, before, after, split, earlier⟩ := found
  refine ⟨holds, before, after, split, ?_⟩
  intro b member
  have member' : b ∈ xs := by
    rw [split]
    exact List.mem_append_left _ member
  have fails := earlier b member
  cases accepted : q b with
  | false => rfl
  | true => simp [implies b member' accepted] at fails

theorem quote_none_of_faded {g : Grammar} {x y : Context} {s t : List Char} (legible : g.Legible) (faded : Faded s t)
    (same : SameOpenings g x y s) (unquoted : x.quote? g s = none) : y.quote? g t = none := by
  unfold Context.quote? at *
  rw [List.find?_eq_none] at *
  intro style member accepted
  rw [Bool.and_eq_true] at accepted
  have stands := faded.marker_reflects (legible.quote style member).1.2 accepted.1
  have opens := (same style member stands).trans accepted.2
  exact unquoted style member (by rw [stands, opens]; rfl)

theorem quote_some_of_faded {g : Grammar} {x y : Context} {s t : List Char} {style : QuoteStyle}
    (legible : g.Legible) (faded : Faded s t) (same : SameOpenings g x y s) (found : x.quote? g s = some style)
    (stands : style.opening.isPrefixOf t = true) : y.quote? g t = some style := by
  unfold Context.quote? at *
  have holds := List.find?_some found
  have member := List.mem_of_find?_eq_some found
  rw [Bool.and_eq_true] at holds
  apply find_eq_some_of_imp found
  · intro other otherMember accepted
    rw [Bool.and_eq_true] at accepted ⊢
    have otherStands := faded.marker_reflects (legible.quote other otherMember).1.2 accepted.1
    exact ⟨otherStands, (same other otherMember otherStands).trans accepted.2⟩
  · rw [stands, ← same style member holds.1, holds.2]
    rfl

theorem prefix_of_length_le {marker body rest : List Char} (stands : marker.isPrefixOf (body ++ rest) = true)
    (fits : marker.length ≤ body.length) : marker <+: body :=
  List.prefix_of_prefix_length_le (List.isPrefixOf_iff_prefix.mp stands) (List.prefix_append body rest) fits

theorem is_prefix_append {marker body : List Char} (stands : marker <+: body) (rest : List Char) :
    marker.isPrefixOf (body ++ rest) = true :=
  List.isPrefixOf_iff_prefix.mpr (stands.trans (List.prefix_append body rest))

-- Two closing delimiters that the reader skips lie inside what it takes.
theorem doubled_fits {style : QuoteStyle} {count : Nat} {b : Char} {body rest : List Char} {closed : Bool}
    (stands : style.closing ++ style.closing <+: b :: (body ++ rest))
    (extent : Literal.quotedLength style false (2 * style.closing.length - 1) (count + 1) (body ++ rest) =
      (count + (b :: body).length, closed)) :
    style.closing ++ style.closing <+: b :: body := by
  have length := stands.length_le
  rw [List.length_append, List.length_cons] at length
  have skipped := quoted_length_skip style false (2 * style.closing.length - 1) (count + 1) (body ++ rest) (by omega)
  rw [extent, List.length_cons] at skipped
  rw [← List.cons_append] at stands
  refine List.prefix_of_prefix_length_le stands (List.prefix_append _ _) ?_
  rw [List.length_append, List.length_cons]
  omega

section

variable {style : QuoteStyle} {s t : List Char} (unblank : Unblank style.closing) (faded : Faded s t)

include unblank faded

theorem doubled_at_faded (single : ¬doubledAt style s = true) : ¬doubledAt style t = true := by
  intro doubled
  obtain ⟨kind, stands⟩ := doubled_at_iff.mp doubled
  have twice : Unblank (style.closing ++ style.closing) := fun c member =>
    unblank c ((List.mem_append.mp member).elim id id)
  have stands' := faded.marker_reflects twice (List.isPrefixOf_iff_prefix.mpr stands)
  exact single (doubled_at_iff.mpr ⟨kind, List.isPrefixOf_iff_prefix.mp stands'⟩)

theorem closes_at_faded {escaped : Bool} (goesOn : ¬closesAt style escaped s = true) :
    ¬closesAt style escaped t = true := by
  intro closes
  rw [closesAt, Bool.and_eq_true] at closes
  exact goesOn (Bool.and_eq_true_iff.mpr ⟨faded.marker_reflects unblank closes.1, closes.2⟩)

end

-- A literal of which nothing is left ends before a line feed, which stays.
theorem quoted_length_ended {style : QuoteStyle} {rest rest' : List Char} (marker : Marker style.closing)
    (faded : Faded rest rest') {escaped : Bool} {skip count : Nat} {closed : Bool}
    (extent : Literal.quotedLength style escaped skip count rest = (count, closed)) :
    Literal.quotedLength style escaped skip count rest' = (count, closed) := by
  cases rest with
  | nil => rwa [faded.eq_nil]
  | cons c rest =>
    have goOn : ∀ escaped skip, Literal.quotedLength style escaped skip (count + 1) rest ≠ (count, closed) := by
      intro escaped skip same
      have bound := quoted_length_le style escaped skip (count + 1) rest
      rw [same] at bound
      exact Nat.lt_irrefl count bound
    cases skip with
    | succ skip => exact absurd extent (goOn false skip)
    | zero =>
      rw [quoted_length_cons] at extent
      split_ifs at extent with doubled closes breaks
      · exact absurd extent (goOn _ _)
      · have length := congrArg Prod.fst extent
        have positive := List.length_pos_iff.mpr marker.1
        dsimp only at length
        omega
      · have feed : c = '\n' := beq_iff_eq.mp (Bool.and_eq_true_iff.mp breaks).2
        rw [feed] at faded doubled closes breaks
        obtain ⟨rest'', rfl, _⟩ := faded.line_feed
        rw [quoted_length_cons, if_neg (doubled_at_faded marker.2 faded doubled),
          if_neg (closes_at_faded marker.2 faded closes), if_pos breaks]
        exact extent
      · exact absurd extent (goOn _ _)

theorem quoted_length_faded {style : QuoteStyle} {rest rest' : List Char} (marker : Marker style.closing)
    (faded : Faded rest rest') (escaped : Bool) (skip count : Nat) (body : List Char) (closed : Bool)
    (extent : Literal.quotedLength style escaped skip count (body ++ rest) = (count + body.length, closed)) :
    Literal.quotedLength style escaped skip count (body ++ rest') = (count + body.length, closed) := by
  induction body generalizing escaped skip count with
  | nil => exact quoted_length_ended marker faded extent
  | cons b body ih =>
    have goOn : ∀ escaped skip, Literal.quotedLength style escaped skip (count + 1) (body ++ rest) =
        (count + (b :: body).length, closed) →
        Literal.quotedLength style escaped skip (count + 1) (body ++ rest') = (count + (b :: body).length, closed) := by
      intro escaped skip same
      have shift : count + (b :: body).length = count + 1 + body.length := by
        rw [List.length_cons]
        omega
      rw [shift] at same ⊢
      exact ih escaped skip (count + 1) same
    have whole : Faded (b :: (body ++ rest)) (b :: (body ++ rest')) := faded.prepend (b :: body)
    rw [List.cons_append] at *
    cases skip with
    | succ skip => exact goOn false skip extent
    | zero =>
      rw [quoted_length_cons] at extent ⊢
      by_cases doubled : doubledAt style (b :: (body ++ rest)) = true
      · -- The reader skips both delimiters, so they lie inside the literal.
        obtain ⟨kind, stands⟩ := doubled_at_iff.mp doubled
        rw [if_pos doubled] at extent
        have inside : style.closing ++ style.closing <+: b :: (body ++ rest') :=
          (doubled_fits stands extent).trans (List.prefix_append (b :: body) rest')
        rw [if_pos (doubled_at_iff.mpr ⟨kind, inside⟩)]
        exact goOn _ _ extent
      rw [if_neg doubled] at extent
      rw [if_neg (doubled_at_faded marker.2 whole doubled)]
      by_cases closes : closesAt style escaped (b :: (body ++ rest)) = true
      · rw [if_pos closes] at extent
        have length : style.closing.length = (b :: body).length := Nat.add_left_cancel (congrArg Prod.fst extent)
        have inside := prefix_of_length_le (List.isPrefixOf_iff_prefix.mpr (prefix_of_closes closes)) (Nat.le_of_eq length)
        have closes' : closesAt style escaped (b :: (body ++ rest')) = true :=
          Bool.and_eq_true_iff.mpr ⟨is_prefix_append inside rest', (Bool.and_eq_true_iff.mp closes).2⟩
        rw [if_pos closes']
        exact extent
      rw [if_neg closes] at extent
      rw [if_neg (closes_at_faded marker.2 whole closes)]
      by_cases breaks : breaksAt style b = true
      · rw [if_pos breaks] at extent
        have length := congrArg Prod.fst extent
        simp only [List.length_cons] at length
        omega
      rw [if_neg breaks] at extent ⊢
      exact goOn _ _ extent

end SnippetReview
