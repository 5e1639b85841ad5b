import SnippetReview.Proofs.Lexing.Blanking
import SnippetReview.Proofs.Lexing.Partition
import SnippetReview.Proofs.Text.Utf8

set_option autoImplicit false

namespace SnippetReview

open Text

namespace Segment

def visible (s : Segment) : List Char := if s.kind = .comment then s.text.flatMap blanked else s.text

theorem visible_comment {s : Segment} (comment : s.kind = .comment) : s.visible = s.text.flatMap blanked :=
  if_pos comment

theorem visible_kept {s : Segment} (kept : s.kind ≠ .comment) : s.visible = s.text := if_neg kept

theorem size_visible (s : Segment) : size s.visible = size s.text := by
  by_cases comment : s.kind = .comment
  · rw [visible_comment comment, size_flat_map_blanked]
  · rw [visible_kept comment]

end Segment

theorem strip_comments_visible (g : Grammar) (source : List Char) :
    stripComments g source = (segments g source).flatMap Segment.visible := rfl

theorem bytes_blanked (c : Char) : ∀ b ∈ bytes (blanked c), b = 32 ∨ b = 10 := by
  unfold blanked
  split
  · intro b member
    have feed : bytes ['\n'] = [10] := by decide
    rw [feed, List.mem_singleton] at member
    exact .inr member
  · intro b member
    unfold bytes at member
    obtain ⟨d, blank, inside⟩ := List.mem_flatMap.mp member
    rw [List.eq_of_mem_replicate blank, show String.utf8EncodeChar ' ' = [32] by decide] at inside
    exact .inl (List.mem_singleton.mp inside)

theorem bytes_flat_map_blanked (s : List Char) : ∀ b ∈ bytes (s.flatMap blanked), b = 32 ∨ b = 10 := by
  induction s with
  | nil => simp
  | cons c rest ih =>
    intro b member
    rw [List.flatMap_cons, bytes_append, List.mem_append] at member
    exact member.elim (bytes_blanked c b) (ih b)

def feedMarks (s : List Char) : List Bool := (bytes s).map (· == 10)

theorem feed_marks_append (s t : List Char) : feedMarks (s ++ t) = feedMarks s ++ feedMarks t := by simp [feedMarks]

theorem feed_marks_blanked (c : Char) : feedMarks (blanked c) = feedMarks [c] := by
  unfold blanked
  by_cases feed : c = '\n'
  · rw [feed]
    rfl
  · rw [if_neg (by simpa using feed)]
    -- Neither the blanks nor the bytes of the character are line feeds, and there are as many.
    have none : ∀ s : List Char, (∀ d ∈ s, d ≠ '\n') → feedMarks s = List.replicate (size s) false := by
      intro s others
      unfold feedMarks
      rw [List.eq_replicate_iff]
      refine ⟨by simp, fun mark member => ?_⟩
      obtain ⟨b, inside, rfl⟩ := List.mem_map.mp member
      obtain ⟨d, chosen, byte⟩ := List.mem_flatMap.mp inside
      rw [beq_eq_false_iff_ne]
      intro ten
      rw [ten] at byte
      exact others d chosen (feed_mem_encode byte)
    rw [none [c] (by simpa using feed), none (List.replicate c.utf8Size ' '), size_replicate_blank, size_singleton]
    intro d member
    rw [List.eq_of_mem_replicate member]
    decide

theorem feed_marks_flat_map_blanked (s : List Char) : feedMarks (s.flatMap blanked) = feedMarks s := by
  induction s with
  | nil => rfl
  | cons c rest ih =>
    rw [List.flatMap_cons, feed_marks_append, feed_marks_blanked, ih, ← feed_marks_append, List.singleton_append]

theorem feed_marks_visible (segments : List Segment) :
    feedMarks (segments.flatMap Segment.visible) = feedMarks (segments.flatMap (·.text)) := by
  induction segments with
  | nil => rfl
  | cons s rest ih =>
    rw [List.flatMap_cons, List.flatMap_cons, feed_marks_append, feed_marks_append, ih]
    by_cases comment : s.kind = .comment
    · rw [Segment.visible_comment comment, feed_marks_flat_map_blanked]
    · rw [Segment.visible_kept comment]

theorem size_flat_map_visible (segments : List Segment) :
    size (segments.flatMap Segment.visible) = size (segments.flatMap (·.text)) := by
  induction segments with
  | nil => rfl
  | cons s rest ih => rw [List.flatMap_cons, List.flatMap_cons, size_append, size_append, ih, Segment.size_visible]

theorem feeds_strip (g : Grammar) (source : List Char) (i : Nat) :
    (bytes (stripComments g source))[i]? = some 10 ↔ (bytes source)[i]? = some 10 := by
  have marks := feed_marks_visible (segments g source)
  rw [flat_map_text_segments, ← strip_comments_visible] at marks
  have mark : ∀ s : List Char, (bytes s)[i]? = some 10 ↔ (feedMarks s)[i]? = some true := by
    intro s
    simp [feedMarks]
  rw [mark, mark, marks]

theorem bytes_outside {offset : Nat} {segments : List Segment} (contiguous : Contiguous offset segments) (i : Nat)
    (outside : ∀ s ∈ segments, s.kind = .comment → ¬ (s.start ≤ offset + i ∧ offset + i < s.stop)) :
    (bytes (segments.flatMap Segment.visible))[i]? = (bytes (segments.flatMap (·.text)))[i]? := by
  induction segments generalizing offset i with
  | nil => rfl
  | cons s rest ih =>
    obtain ⟨start, next⟩ := contiguous
    rw [List.flatMap_cons, List.flatMap_cons, bytes_append, bytes_append]
    by_cases inside : i < size s.text
    · have kept : s.kind ≠ .comment := by
        intro comment
        refine outside s List.mem_cons_self comment ⟨by omega, ?_⟩
        rw [Segment.stop]
        omega
      rw [Segment.visible_kept kept, List.getElem?_append_left (by rwa [length_bytes]),
        List.getElem?_append_left (by rwa [length_bytes])]
    · rw [List.getElem?_append_right (by rw [length_bytes, Segment.size_visible]; omega),
        List.getElem?_append_right (by rw [length_bytes]; omega), length_bytes, length_bytes, Segment.size_visible]
      refine ih next (i - size s.text) fun other member comment => ?_
      rw [show offset + size s.text + (i - size s.text) = offset + i by omega]
      exact outside other (List.mem_cons_of_mem s member) comment

theorem bytes_inside {offset : Nat} {segments : List Segment} (contiguous : Contiguous offset segments) {s : Segment}
    (member : s ∈ segments) (comment : s.kind = .comment) (i : Nat) (low : s.start ≤ offset + i)
    (high : offset + i < s.stop) :
    (bytes (segments.flatMap Segment.visible))[i]? = some 32 ∨ (bytes (segments.flatMap Segment.visible))[i]? = some 10 := by
  induction segments generalizing offset i with
  | nil => contradiction
  | cons first rest ih =>
    obtain ⟨start, next⟩ := contiguous
    rw [List.flatMap_cons, bytes_append]
    rcases List.mem_cons.mp member with rfl | later
    · rw [Segment.stop] at high
      have inside : i < (bytes s.visible).length := by
        rw [length_bytes, Segment.size_visible]
        omega
      rw [List.getElem?_append_left inside, List.getElem?_eq_getElem inside, Option.some.injEq, Option.some.injEq]
      refine bytes_flat_map_blanked s.text _ ?_
      rw [← Segment.visible_comment comment]
      exact List.getElem_mem inside
    · have beyond : offset + size first.text ≤ s.start := start_of_contiguous next later
      rw [List.getElem?_append_right (by rw [length_bytes, Segment.size_visible]; omega), length_bytes,
        Segment.size_visible]
      exact ih next later (i - size first.text) (by omega) (by omega)

theorem bytes_strip_outside (g : Grammar) (source : List Char) (i : Nat)
    (outside : ∀ s ∈ segments g source, s.kind = .comment → ¬ (s.start ≤ i ∧ i < s.stop)) :
    (bytes (stripComments g source))[i]? = (bytes source)[i]? := by
  have same := bytes_outside (contiguous_segments g source) i (by simpa using outside)
  rwa [flat_map_text_segments, ← strip_comments_visible] at same

theorem bytes_strip_inside (g : Grammar) (source : List Char) {s : Segment} (member : s ∈ segments g source)
    (comment : s.kind = .comment) (i : Nat) (low : s.start ≤ i) (high : i < s.stop) :
    (bytes (stripComments g source))[i]? = some 32 ∨ (bytes (stripComments g source))[i]? = some 10 :=
  bytes_inside (contiguous_segments g source) member comment i (by omega) (by omega)

theorem size_strip (g : Grammar) (source : List Char) : size (stripComments g source) = size source := by
  have sizes := size_flat_map_visible (segments g source)
  rwa [flat_map_text_segments, ← strip_comments_visible] at sizes

end SnippetReview
