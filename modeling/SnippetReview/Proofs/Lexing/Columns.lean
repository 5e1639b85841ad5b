import Mathlib.Algebra.GroupWithZero.Nat
import SnippetReview.Proofs.Lexing.Blanking
import SnippetReview.Proofs.Lexing.Partition
import SnippetReview.Proofs.Text.Positions

/- Lines and columns of a source whose comments are blanked out. Lines stay as they are. A space stands for
   each byte of a comment, so that a comment's character of several bytes moves what follows on its line. -/

set_option autoImplicit false

namespace SnippetReview

open Text

def commented (g : Grammar) (source : List Char) : List (Char × Bool) :=
  (segments g source).flatMap fun s => s.text.map fun c => (c, decide (s.kind = .comment))

def shown (mark : Char × Bool) : List Char := if mark.2 then blanked mark.1 else [mark.1]

theorem commented_chars (g : Grammar) (source : List Char) : (commented g source).map (·.1) = source := by
  have segment : ∀ s : Segment, (s.text.map fun c => (c, decide (s.kind = .comment))).map (·.1) = s.text := by
    intro s
    rw [List.map_map]
    exact List.map_id s.text
  unfold commented
  rw [List.map_flatMap]
  simp only [segment]
  exact flat_map_text_segments g source

theorem commented_shown (g : Grammar) (source : List Char) :
    (commented g source).flatMap shown = stripComments g source := by
  unfold commented stripComments
  rw [List.flatMap_assoc]
  congr 1
  funext s
  by_cases comment : s.kind = .comment <;> simp [List.flatMap_map, shown, comment]

section

variable {mark : Char × Bool} (marks : List (Char × Bool))

theorem size_shown : size (marks.flatMap shown) = size (marks.map (·.1)) := by
  induction marks with
  | nil => rfl
  | cons mark rest ih =>
    rw [List.flatMap_cons, List.map_cons, size_append, size_cons, ih]
    obtain ⟨c, hidden⟩ := mark
    cases hidden with
    | true => simp [shown, size_blanked]
    | false => simp [shown]

theorem shown_feed (feed : mark.1 = '\n') : shown mark = ['\n'] := by
  obtain ⟨c, hidden⟩ := mark
  cases feed
  cases hidden <;> rfl

theorem shown_plain (other : mark.1 ≠ '\n') : ∀ c ∈ shown mark, c ≠ '\n' := by
  obtain ⟨c, hidden⟩ := mark
  cases hidden with
  | true => simp_all [shown, blanked]
  | false => simpa [shown] using other

theorem count_shown : (marks.flatMap shown).count '\n' = (marks.map (·.1)).count '\n' := by
  induction marks with
  | nil => rfl
  | cons mark rest ih =>
    rw [List.flatMap_cons, List.map_cons, List.count_append, List.count_cons, ih, Nat.add_comm]
    by_cases feed : mark.1 = '\n'
    · rw [shown_feed feed, if_pos (by simp [feed])]
      rfl
    · rw [if_neg (by simpa using feed), List.count_eq_zero_of_not_mem fun member => shown_plain feed _ member rfl]

def extraBytes : Nat := ((marks.filter (·.2)).map fun mark => mark.1.utf8Size - 1).sum

theorem length_shown (plain : ∀ mark ∈ marks, mark.1 ≠ '\n') :
    (marks.flatMap shown).length = marks.length + extraBytes marks := by
  induction marks with
  | nil => rfl
  | cons mark rest ih =>
    have later := ih fun other member => plain other (List.mem_cons_of_mem mark member)
    have other := plain mark List.mem_cons_self
    have positive := mark.1.utf8Size_pos
    obtain ⟨c, hidden⟩ := mark
    rw [List.flatMap_cons, List.length_append, later, List.length_cons]
    cases hidden with
    | true =>
      have width : (shown (c, true)).length = c.utf8Size := by simp_all [shown, blanked]
      have extra : extraBytes ((c, true) :: rest) = c.utf8Size - 1 + extraBytes rest := rfl
      dsimp only at positive
      omega
    | false =>
      have width : (shown (c, false)).length = 1 := rfl
      have extra : extraBytes ((c, false) :: rest) = extraBytes rest := rfl
      omega

def lastLine : List (Char × Bool) := (marks.reverse.takeWhile fun mark => mark.1 != '\n').reverse

theorem last_line_split : ∃ lines, marks = lines ++ lastLine marks ∧
    (lines = [] ∨ ∃ more mark, lines = more ++ [mark] ∧ mark.1 = '\n') := by
  refine ⟨(marks.reverse.dropWhile fun mark => mark.1 != '\n').reverse, ?_, ?_⟩
  · rw [lastLine, ← List.reverse_append, List.takeWhile_append_dropWhile, List.reverse_reverse]
  · cases fed : marks.reverse.dropWhile fun mark => mark.1 != '\n' with
    | nil => exact .inl rfl
    | cons mark more =>
      have stops := List.head?_dropWhile_not (fun mark : Char × Bool => mark.1 != '\n') marks.reverse
      rw [fed] at stops
      exact .inr ⟨more.reverse, mark, List.reverse_cons, by simpa using stops⟩

theorem last_line_plain : ∀ mark ∈ lastLine marks, mark.1 ≠ '\n' := by
  intro mark member
  have passes := List.all_eq_true.mp List.all_takeWhile mark (List.mem_reverse.mp member)
  exact bne_iff_ne.mp passes

end

def columnShift (g : Grammar) (source : List Char) (offset : Nat) : Nat :=
  extraBytes (lastLine ((commented g source).take (charsWithin offset source)))

theorem position_strip (g : Grammar) (front back : List Char) :
    Position.of (stripComments g (front ++ back)) (size front) =
      ⟨(Position.of (front ++ back) (size front)).line,
        (Position.of (front ++ back) (size front)).column + columnShift g (front ++ back) (size front)⟩ := by
  have within : charsWithin (size front) (front ++ back) = front.length := by simp [chars_within_append]
  obtain ⟨marks, rest, whole, chars, chars'⟩ := List.map_eq_append_iff.mp (commented_chars g (front ++ back))
  have length : marks.length = front.length := by rw [← chars, List.length_map]
  have shift : columnShift g (front ++ back) (size front) = extraBytes (lastLine marks) := by
    rw [columnShift, within, whole, ← length, List.take_left]
  have shownFront : takeBytes (size front) (stripComments g (front ++ back)) = marks.flatMap shown := by
    rw [← commented_shown, whole, List.flatMap_append, ← chars, ← size_shown]
    exact take_bytes_append _ _
  -- The last lines of both texts come from the same characters.
  obtain ⟨lines, split, fed⟩ := last_line_split marks
  have plain := last_line_plain marks
  have last : LastLine (takeBytes (size front) (front ++ back)) (lines.map (·.1)) ((lastLine marks).map (·.1)) := by
    refine ⟨?_, ?_, ?_⟩
    · rw [take_bytes_append, ← List.map_append, ← split, chars]
    · intro c member
      obtain ⟨mark, inside, rfl⟩ := List.mem_map.mp member
      exact plain mark inside
    · rcases fed with rfl | ⟨more, mark, rfl, feed⟩
      · exact .inl rfl
      · exact .inr ⟨more.map (·.1), by simp [feed]⟩
  have last' : LastLine (takeBytes (size front) (stripComments g (front ++ back))) (lines.flatMap shown)
      ((lastLine marks).flatMap shown) := by
    refine ⟨?_, ?_, ?_⟩
    · rw [shownFront, ← List.flatMap_append, ← split]
    · intro c member
      obtain ⟨mark, inside, member⟩ := List.mem_flatMap.mp member
      exact shown_plain (plain mark inside) c member
    · rcases fed with rfl | ⟨more, mark, rfl, feed⟩
      · exact .inl rfl
      · exact .inr ⟨more.flatMap shown, by simp [shown_feed feed]⟩
  rw [Position.of_last_line last, Position.of_last_line last', shift, shownFront, take_bytes_append, count_shown, chars,
    length_shown _ plain, List.length_map, Nat.add_right_comm]

theorem column_shift_eq_zero_iff (g : Grammar) (source : List Char) (offset : Nat) :
    columnShift g source offset = 0 ↔
      ∀ mark ∈ lastLine ((commented g source).take (charsWithin offset source)), mark.2 = true → mark.1.utf8Size = 1 := by
  unfold columnShift extraBytes
  simp only [List.sum_eq_zero_iff_forall_eq_nat, List.mem_map, List.mem_filter]
  constructor
  · intro none mark member comment
    have single := none _ ⟨mark, ⟨member, comment⟩, rfl⟩
    have positive := mark.1.utf8Size_pos
    omega
  · rintro single _ ⟨mark, ⟨member, comment⟩, rfl⟩
    rw [single mark member comment]

end SnippetReview
