import SnippetReview.Proofs.Bytewise.Access
import SnippetReview.Proofs.Text.Positions

set_option autoImplicit false

namespace SnippetReview

open Text

namespace Bytewise

def clampStep (s : List Char) (i : Nat) : Checked (Nat ⊕ Nat) :=
  if isBoundary s i then return .inr i
  else do
    let before ← minus i 1
    return .inl before

def clamp (s : List Char) (offset : Nat) : Checked Nat := loop (clampStep s) (size s + 1) (min offset (size s))

structure Lines where
  text : List Char
  starts : Array Nat
  -- The last lookup, as an offset and its column.
  last : Option (Nat × Nat)

namespace Lines

def ofText (s : List Char) : Lines := ⟨s, (0 :: feedsFrom 0 s).toArray, none⟩

def line (lines : Lines) (offset : Nat) : Checked Nat := do
  let offset ← clamp lines.text offset
  return Search.boundary (fun start => start ≤ offset) lines.starts

def startAt (lines : Lines) (i : Nat) : Checked Nat :=
  match lines.starts[i]? with
  | some start => .ok start
  | none => .error .index

def origin (lines : Lines) (start offset : Nat) : Checked (Nat × Nat) :=
  match lines.last with
  | some (known, column) =>
    if start ≤ known ∧ known ≤ offset then do
      let counted ← minus column 1
      return (known, counted)
    else return (start, 0)
  | none => return (start, 0)

def position (lines : Lines) (offset : Nat) : Checked (Position × Lines) := do
  let offset ← clamp lines.text offset
  let line ← lines.line offset
  let start ← lines.startAt (← minus line 1)
  let (known, counted) ← lines.origin start offset
  let passed := ((slice? lines.text known offset).map List.length).getD 0
  return (⟨line, counted + passed + 1⟩, { lines with last := some (offset, counted + passed + 1) })

end Lines

def positionOf (s : List Char) (offset : Nat) : Checked Position := do
  let (position, _) ← (Lines.ofText s).position offset
  return position

end Bytewise

def Text.LineIndex.lines (index : LineIndex) (s : List Char) : Bytewise.Lines :=
  ⟨s, index.starts.map (·.1), index.last.map fun l => (l.offset, l.column)⟩

namespace Bytewise

section

variable {s : List Char} {index : LineIndex}

-- An offset inside a character is moved down without passing the start of the character.
theorem take_bytes_inside (s : List Char) (i : Nat) (inside : isBoundary s (i + 1) = false) :
    takeBytes (i + 1) s = takeBytes i s := by
  induction s generalizing i with
  | nil => rfl
  | cons c rest ih =>
    by_cases short : c.utf8Size ≤ i
    · have next : i + 1 - c.utf8Size = i - c.utf8Size + 1 := by omega
      have later : isBoundary rest (i - c.utf8Size + 1) = false := by
        rw [isBoundary, beq_eq_false_iff_ne] at inside ⊢
        intro same
        refine inside ?_
        rw [takeBytes, chars_within_cons, if_pos (by omega), List.take_succ_cons, size_cons, next]
        change c.utf8Size + size (takeBytes (i - c.utf8Size + 1) rest) = i + 1
        omega
      have same := ih _ later
      rw [takeBytes, takeBytes] at same ⊢
      rw [chars_within_cons, chars_within_cons, if_pos (by omega), if_pos short, List.take_succ_cons, List.take_succ_cons,
        next, same]
    · by_cases ends : c.utf8Size = i + 1
      · rw [isBoundary, beq_eq_false_iff_ne, takeBytes, chars_within_cons, if_pos (by omega), ends, Nat.sub_self,
          chars_within_zero, List.take_succ_cons, List.take_zero, size_singleton] at inside
        exact absurd ends inside
      · rw [takeBytes, takeBytes, chars_within_cons, chars_within_cons, if_neg (by omega), if_neg short]

theorem clamp_loop (s : List Char) (fuel i : Nat) (enough : i < fuel) :
    loop (clampStep s) fuel i = .ok (size (takeBytes i s)) := by
  induction fuel generalizing i with
  | zero => omega
  | succ fuel ih =>
    by_cases boundary : isBoundary s i = true
    · rw [beq_iff_eq.mp boundary]
      exact loop_done (by rw [clampStep, if_pos boundary]; rfl) fuel
    · cases i with
      | zero => exact absurd (boundary_size [] s) boundary
      | succ i =>
        have step : clampStep s (i + 1) = .ok (.inl i) := by
          rw [clampStep, if_neg boundary, minus_of_le (Nat.le_add_left 1 i), ok_bind]
          rfl
        rw [loop_next step, ih i (by omega), take_bytes_inside s i (Bool.eq_false_iff.mpr boundary)]

theorem clamp_spec (s : List Char) (offset : Nat) : clamp s offset = .ok (size (takeBytes offset s)) := by
  rw [clamp, clamp_loop s _ _ (Nat.lt_succ_of_le (Nat.min_le_right _ _)), take_bytes_min]

theorem lines_of_text (s : List Char) : Lines.ofText s = (LineIndex.ofText s).lines s := by
  unfold Lines.ofText LineIndex.lines
  rw [← LineIndex.starts_of_text]
  rfl

theorem line_spec (indexes : index.Indexes s) (offset : Nat) : (index.lines s).line offset = .ok (index.line offset) := by
  have parts := split_at_bytes offset s
  have inside : min (size (takeBytes offset s)) index.size = size (takeBytes offset s) := by
    have total := congrArg size parts
    rw [size_append] at total
    rw [indexes.size]
    omega
  have found := indexes.line (size (takeBytes offset s))
  unfold LineIndex.line at found
  rw [inside, take_bytes_again, ← indexes.line,
    ← Search.boundary_map (·.1) (fun start => decide (start ≤ size (takeBytes offset s))) index.starts] at found
  unfold Lines.line
  rw [show (index.lines s).text = s from rfl, clamp_spec, ok_bind]
  exact congrArg Except.ok found

theorem origin_spec (indexes : index.Indexes s) (offset : Nat) {lines here : List Char}
    (last : LastLine (takeBytes offset s) lines here) :
    (index.lines s).origin (size lines) (size (takeBytes offset s)) = .ok
      ((index.origin (min offset index.size) (index.line offset)).offset,
        (index.origin (min offset index.size) (index.line offset)).column - 1) := by
  rw [indexes.line]
  unfold Lines.origin LineIndex.origin LineIndex.lines
  rw [indexes.starts, Nat.add_sub_cancel, LineIndex.start_of_line (split_at_bytes offset s) last, Option.getD_some]
  dsimp only
  cases known : index.last with
  | none => rfl
  | some l =>
    obtain ⟨pre, split, place, column⟩ := indexes.last l known
    have reached : l.offset ≤ size (takeBytes offset s) ↔ l.offset ≤ min offset index.size := by
      have inside : size pre ≤ size s := by
        rw [split, size_append]
        exact Nat.le_add_right _ _
      have passed := boundary_le_iff split offset
      rw [place, indexes.size]
      omega
    have counted : 1 ≤ l.column := by
      obtain ⟨_, _, there⟩ := exists_last_line (takeBytes l.offset s)
      rw [column, Position.of_last_line there]
      exact Nat.le_add_left 1 _
    dsimp only [Option.map_some]
    by_cases onLine : size lines ≤ l.offset ∧ l.offset ≤ min offset index.size
    · rw [if_pos onLine, if_pos (by rwa [reached]), minus_of_le counted]
      rfl
    · rw [if_neg onLine, if_neg (by rwa [reached])]
      rfl

theorem position_spec (indexes : index.Indexes s) (offset : Nat) :
    (index.lines s).position offset = .ok ((index.position offset).1, (index.position offset).2.lines s) := by
  have parts := split_at_bytes offset s
  obtain ⟨lines, here, last⟩ := exists_last_line (takeBytes offset s)
  obtain ⟨done, more, leads⟩ := LineIndex.origin_leads indexes offset
  have line : (index.lines s).line (size (takeBytes offset s)) = .ok (index.line offset) := by
    rw [line_spec indexes, indexes.line, indexes.line, take_bytes_again]
  have start : (index.lines s).startAt ((takeBytes offset s).count '\n') = .ok (size lines) := by
    unfold Lines.startAt LineIndex.lines
    rw [Array.getElem?_map, indexes.starts, LineIndex.start_of_line parts last]
    rfl
  have origin := origin_spec indexes offset last
  generalize index.origin (min offset index.size) (index.line offset) = known at leads origin
  have passed : slice? s known.offset (size (takeBytes offset s)) = some more :=
    slice_parts (by rw [← leads.front]; exact parts) leads.place (by rw [leads.front, size_append])
  have column : known.column - 1 + more.length + 1 = (Position.of s offset).column := by
    have first := leads.first
    have whole := leads.column
    omega
  rw [LineIndex.position_eq indexes]
  unfold Lines.position
  rw [show (index.lines s).text = s from rfl, clamp_spec, ok_bind, line, ok_bind, indexes.line,
    minus_of_le (Nat.le_add_left 1 _), ok_bind, Nat.add_sub_cancel, start, ok_bind, origin, ok_bind]
  dsimp only
  rw [passed, Option.map_some, Option.getD_some, column, ← indexes.line]
  have lined : Position.of s offset = ⟨index.line offset, (Position.of s offset).column⟩ := by
    rw [indexes.line, Position.of_last_line last]
  rw [← lined]
  rfl

theorem position_of_spec (s : List Char) (offset : Nat) : positionOf s offset = .ok (Position.of s offset) := by
  have indexes := LineIndex.indexes_of_text s
  rw [positionOf, lines_of_text, position_spec indexes, ok_bind, LineIndex.position_eq indexes]
  rfl

end

end Bytewise

end SnippetReview
