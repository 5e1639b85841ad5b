import Mathlib.Data.List.DropRight
import SnippetReview.Proofs.Bytewise.Lines

set_option autoImplicit false

namespace SnippetReview

open Text

namespace Text

-- The longest beginning of a text that ends at or before an offset.
structure Clamps (s : List Char) (offset : Nat) (front : List Char) : Prop where
  begins : front <+: s
  within : size front ≤ offset
  longest : ∀ other, other <+: s → size other ≤ offset → other <+: front

theorem take_bytes_clamps (offset : Nat) (s : List Char) : Clamps s offset (takeBytes offset s) where
  begins := List.take_prefix _ s
  within := size_take_bytes_le offset s
  longest := by
    rintro other ⟨post, parts⟩ within
    have reached := (boundary_le_iff parts.symm offset).mpr within
    obtain ⟨mid, longer, -⟩ := ordered_places parts.symm (split_at_bytes offset s) reached
    exact ⟨mid, longer.symm⟩

namespace Position

-- The position behind a text: its line feeds are counted, and the characters after the last of them.
def behind (front : List Char) : Position := ⟨1 + front.count '\n', 1 + (front.rtakeWhile (· != '\n')).length⟩

theorem rtake_while_of_last_line {text lines here : List Char} (last : LastLine text lines here) :
    text.rtakeWhile (· != '\n') = here := by
  have inside : ∀ c ∈ here.reverse, (c != '\n') = true := fun c member => by
    simpa using last.plain c (List.mem_reverse.mp member)
  rw [last.split, List.rtakeWhile, List.reverse_append, List.takeWhile_append_of_pos inside]
  rcases last.fed with rfl | ⟨more, rfl⟩
  · simp
  · simp

theorem of_eq_behind (s : List Char) (offset : Nat) : of s offset = behind (takeBytes offset s) := by
  obtain ⟨lines, here, last⟩ := exists_last_line (takeBytes offset s)
  rw [of_last_line last, behind, rtake_while_of_last_line last, Nat.add_comm, Nat.add_comm here.length]

end Position

def LineIndex.lookups : LineIndex → List Nat → List (Nat × Position)
  | _, [] => []
  | index, offset :: rest =>
    let (position, next) := index.position offset
    (index.line offset, position) :: next.lookups rest

end Text

def Bytewise.Lines.lookups : Bytewise.Lines → List Nat → Bytewise.Checked (List (Nat × Position))
  | _, [] => return []
  | lines, offset :: rest => do
    let line ← lines.line offset
    let (position, next) ← lines.position offset
    return (line, position) :: (← next.lookups rest)

namespace Text.LineIndex

variable {index : LineIndex} {s : List Char}

theorem Indexes.lookups_eq (indexes : index.Indexes s) (offsets : List Nat) :
    index.lookups offsets = offsets.map fun offset => ((Position.of s offset).line, Position.of s offset) := by
  induction offsets generalizing index with
  | nil => rfl
  | cons offset rest ih =>
    obtain ⟨lines, here, last⟩ := exists_last_line (takeBytes offset s)
    have line : index.line offset = (Position.of s offset).line := by rw [indexes.line, Position.of_last_line last]
    have later := ih (indexes.position offset)
    rw [position_eq indexes] at later
    rw [lookups, position_eq indexes]
    dsimp only
    rw [later, line, List.map_cons]

theorem Indexes.lookups_spec (indexes : index.Indexes s) (offsets : List Nat) :
    (index.lines s).lookups offsets = .ok (index.lookups offsets) := by
  induction offsets generalizing index with
  | nil => rfl
  | cons offset rest ih =>
    rw [Bytewise.Lines.lookups, Bytewise.line_spec indexes, Bytewise.ok_bind, Bytewise.position_spec indexes, Bytewise.ok_bind]
    dsimp only
    rw [ih (indexes.position offset), Bytewise.ok_bind]
    rfl

/-- Offsets in any order, repeated, past the end or inside a character have the position behind what the text has up
to there, whole characters only. Reading by byte indices, no lookup fails. -/
theorem lookups_recount (s : List Char) (offsets : List Nat) :
    (∀ offset, Clamps s offset (takeBytes offset s)) ∧
      (ofText s).lookups offsets = offsets.map (fun offset =>
        let position := Position.behind (takeBytes offset s)
        (position.line, position)) ∧
      (Bytewise.Lines.ofText s).lookups offsets = .ok ((ofText s).lookups offsets) := by
  have indexes := indexes_of_text s
  refine ⟨fun offset => take_bytes_clamps offset s, ?_, ?_⟩
  · rw [indexes.lookups_eq]
    exact List.map_congr_left fun offset _ => by rw [Position.of_eq_behind]
  · rw [Bytewise.lines_of_text, indexes.lookups_spec]

end Text.LineIndex

end SnippetReview
