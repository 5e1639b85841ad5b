import SnippetReview.Proofs.Lexing.Partition
import SnippetReview.Proofs.Lexing.Rereading
import SnippetReview.Proofs.Pattern.Places
import SnippetReview.Proofs.Snippet.Locating
import SnippetReview.Proofs.Text.Positions

set_option autoImplicit false

namespace SnippetReview

open Text

theorem Faded.kept_place {s t : List Char} (faded : Faded s t) {front later : List Char} {c : Char}
    (parts : t = front ++ c :: later) (other : c ≠ ' ') :
    ∃ front' later', s = front' ++ c :: later' ∧ size front' = size front := by
  induction faded generalizing front with
  | nil => exact absurd parts.symm (List.append_ne_nil_of_right_ne_nil front (List.cons_ne_nil c later))
  | @keep d s t rest ih =>
    cases front with
    | nil =>
      obtain ⟨rfl, _⟩ := List.cons.inj parts
      exact ⟨[], s, rfl, rfl⟩
    | cons e front =>
      obtain ⟨rfl, tail⟩ := List.cons.inj parts
      obtain ⟨front', later', split, sizes⟩ := ih tail
      exact ⟨d :: front', later', by rw [split]; rfl, by rw [size_cons, size_cons, sizes]⟩
  | @blank d s t rest ih =>
    rcases List.append_eq_append_iff.mp parts with ⟨mid, reaches, split⟩ | ⟨mid, reaches, split⟩
    · obtain ⟨front', later', split', sizes⟩ := ih split
      refine ⟨d :: front', later', by rw [split']; rfl, ?_⟩
      rw [reaches, size_cons, size_append, size_blanked, sizes]
    · cases mid with
      | nil =>
        obtain ⟨front', later', split', sizes⟩ := ih (show _ = [] ++ c :: later from split.symm)
        refine ⟨d :: front', later', by rw [split']; rfl, ?_⟩
        rw [List.append_nil] at reaches
        rw [← reaches, size_blanked, size_cons, sizes, size_nil, Nat.add_zero]
      | cons e mid =>
        obtain ⟨rfl, _⟩ := List.cons.inj split
        have member : c ∈ blanked d := by rw [reaches]; exact List.mem_append_right _ List.mem_cons_self
        by_cases feed : d = '\n'
        · -- A line feed is left as it is.
          obtain ⟨rfl, rfl, _⟩ : front = [] ∧ c = '\n' ∧ mid = [] := by
            simpa [blanked, feed, List.cons_eq_append_iff] using reaches
          exact ⟨[], s, by rw [feed]; rfl, rfl⟩
        · rw [blanked, if_neg (by simpa using feed)] at member
          exact absurd (List.eq_of_mem_replicate member) other

theorem faded_strip (g : Grammar) (source : List Char) : Faded source (stripComments g source) := by
  rw [strip_comments_eq]
  exact faded_from g {} source

theorem ne_space_of_ink {c : Char} (ink : isBlank c = false) : c ≠ ' ' := by
  rintro rfl
  exact absurd ink (by decide)

theorem Faded.inked_piece {s t : List Char} (faded : Faded s t) {piece : Slice} (lies : piece.LiesIn 0 t)
    (inked : Inked piece.text) : ∃ front here later, s = front ++ here ++ later ∧ piece.start = size front ∧
      piece.stop = size front + size here ∧ Inked here := by
  obtain ⟨front, body, later, after, parts, rfl⟩ := lies
  rw [Slice.text_place] at inked
  obtain ⟨c, rest, begins⟩ := List.exists_cons_of_ne_nil inked.nonempty
  obtain ⟨inner, d, ends⟩ := List.eq_nil_or_concat body |>.resolve_left inked.nonempty
  rw [List.concat_eq_append] at ends
  have inkC := inked.first c (by rw [begins]; rfl)
  have inkD := inked.last d (by rw [ends, List.getLast?_concat]; rfl)
  obtain ⟨front', later', split, size'⟩ := faded.kept_place
    (show t = front ++ c :: (rest ++ later) by rw [parts, begins, List.append_assoc, List.cons_append]) (ne_space_of_ink inkC)
  obtain ⟨most, end', split', sizes⟩ := faded.kept_place
    (show t = (front ++ inner) ++ d :: later by
      rw [parts, ends]; simp only [List.append_assoc, List.cons_append, List.nil_append]) (ne_space_of_ink inkD)
  have whole : s = (most ++ [d]) ++ end' := by rw [split', List.append_assoc, List.singleton_append]
  have total : size (most ++ [d]) = size front + size body := by
    rw [size_append, sizes, ends, size_append, size_append, Nat.add_assoc]
  obtain ⟨here, reaches, rest'⟩ := ordered_places split whole (by omega)
  rw [reaches, size_append] at total
  have some : here ≠ [] := by
    rintro rfl
    have sized : size body ≠ 0 := fun zero => inked.nonempty (size_eq_zero_iff.mp zero)
    rw [size_nil] at total
    omega
  refine ⟨front', here, end', by rw [whole, reaches], ?_, ?_, some, ?_, ?_⟩
  · rw [Slice.start_place, size', Nat.zero_add]
  · rw [Slice.stop, Slice.start_place, Slice.size_place]
    omega
  · obtain ⟨e, more, rfl⟩ := List.exists_cons_of_ne_nil some
    obtain ⟨rfl, _⟩ := List.cons.inj rest'
    intro b first
    rwa [← Option.some.inj first]
  · intro b last
    have last' : (front' ++ here).getLast? = Option.some b := by rw [List.getLast?_append, Option.mem_def.mp last, Option.some_or]
    rw [← reaches, List.getLast?_concat] at last'
    rwa [← Option.some.inj last']

theorem Faded.inked_place {s t : List Char} (faded : Faded s t) {piece : Slice} (lies : piece.LiesIn 0 t)
    (inked : Inked piece.text) :
    ∃ front here later, s = front ++ here ++ later ∧ piece.start = size front ∧ piece.stop = size front + size here := by
  obtain ⟨front, here, later, parts, start, stop, _⟩ := faded.inked_piece lies inked
  exact ⟨front, here, later, parts, start, stop⟩

theorem Faded.read_place {s t : List Char} (faded : Faded s t) {item value : Slice} (lies : item.LiesIn 0 t)
    (inked : Inked item.text) (reads : value.ReadIn item.start item.text) :
    ∃ front here later, s = front ++ here ++ later ∧ value.start = size front ∧ value.stop = size front + size here := by
  rcases reads.trimmed.inked with none | some
  · have stop : value.stop = value.start := by
      rw [Slice.stop, reads.trimmed.lies.size_eq, none]
      rfl
    rw [stop]
    obtain ⟨front, rest, split, start, stops⟩ := reads.empty_place none
    cases rest with
    | nil =>
      -- The value would stand at the end of its statement.
      obtain ⟨front', here, later, parts, first, last⟩ := faded.inked_place lies inked
      have place : value.start = size (front' ++ here) := by
        rw [start, size_append, ← last, Slice.stop, lies.size_eq, split, List.append_nil]
      exact ⟨front' ++ here, [], later, by rw [List.append_nil, parts], place, place⟩
    | cons c rest =>
      obtain ⟨around, body, after, tail, parts, rfl⟩ := lies
      rw [Slice.text_place] at split
      obtain ⟨front', later, parts', sizes⟩ := faded.kept_place
        (show t = (around ++ front) ++ c :: (rest ++ after) by rw [parts, split]; simp) (ne_space_of_ink (stops c rfl))
      rw [size_append] at sizes
      have place : value.start = size front' := by rw [start, Slice.start_place, sizes, Nat.zero_add]
      exact ⟨front', [], c :: later, by rw [parts', List.append_nil], place, place⟩
  · exact faded.inked_place (reads.trimmed.lies.trans lies) some

namespace Text.Cursor

variable {s : List Char} {cursor : Cursor}

theorem In.seek (here : cursor.In s) (offset : Nat) : (cursor.seek offset).In s := here.advance _

theorem seek_offset_le {offset : Nat} (here : cursor.offset ≤ offset) : (cursor.seek offset).offset ≤ offset := by
  have reached := size_take_bytes_le (offset - cursor.offset) cursor.rest
  rw [seek_offset]
  omega

theorem In.up_to_seek (here : cursor.In s) {front mid later : List Char} (parts : s = front ++ mid ++ later)
    (before : cursor.offset ≤ Text.size front) :
    (cursor.seek (Text.size front)).upTo (Text.size front + Text.size mid) = mid := by
  obtain ⟨pre, split, place⟩ := here
  obtain ⟨gap, reaches, rest⟩ := ordered_places split (show s = front ++ (mid ++ later) by rw [parts, List.append_assoc])
    (by omega)
  have distance : Text.size front - cursor.offset = Text.size gap := by
    rw [reaches, size_append]
    omega
  have arrived : (cursor.seek (Text.size front)).offset = Text.size front := by
    rw [seek_offset, distance, rest, take_bytes_append, reaches, size_append, place]
  rw [upTo, arrived, Nat.add_sub_cancel_left, seek_rest, distance, rest, drop_bytes_append, take_bytes_append]

theorem take_bytes_rest (n : Nat) (s : List Char) : takeBytes (n - Text.size (takeBytes n s)) (dropBytes n s) = [] := by
  induction s generalizing n with
  | nil => rfl
  | cons c rest ih =>
    rw [takeBytes, takeBytes, dropBytes, chars_within_cons]
    by_cases fits : c.utf8Size ≤ n
    · have later := ih (n - c.utf8Size)
      rw [takeBytes, takeBytes, dropBytes] at later
      rw [if_pos fits, List.take_succ_cons, List.drop_succ_cons, size_cons, Nat.sub_add_eq]
      exact later
    · rw [if_neg fits, List.take_zero, List.drop_zero, size_nil, Nat.sub_zero, chars_within_cons, if_neg fits]
      rfl

theorem up_to_seek_empty (cursor : Cursor) (offset : Nat) : (cursor.seek offset).upTo offset = [] := by
  rw [upTo, seek_offset, seek_rest, Nat.sub_add_eq]
  exact take_bytes_rest _ _

end Text.Cursor

section

variable {host : Host} {source : List Char} {block : Block} {item : Slice}
  (located : Block.locate host (stripComments host.grammar source) = .ok block)
  (member : item ∈ Extraction.statements host.grammar block.body)

include located member

theorem statement_lies : item.LiesIn 0 (stripComments host.grammar source) ∧ Inked item.text := by
  obtain ⟨opens, inked, _⟩ := statements_stand host.grammar_narrow block.body
  exact ⟨(opens item member).liesIn.trans (Block.lies_of_locate located), inked item member⟩

theorem statement_place : ∃ front back, source = front ++ back ∧ item.start = size front := by
  obtain ⟨lies, inked⟩ := statement_lies located member
  obtain ⟨front, here, later, parts, start, _⟩ := (faded_strip host.grammar source).inked_place lies inked
  exact ⟨front, here ++ later, by rw [parts, List.append_assoc], start⟩

end

theorem binding_reads {host : Host} {block : Block} {bound : Slice × Binding}
    (member : bound ∈ Extraction.bindings host.grammar block.receiver (Extraction.statements host.grammar block.body)) :
    bound.1 ∈ Extraction.statements host.grammar block.body ∧ bound.2.value.ReadIn bound.1.start bound.1.text := by
  obtain ⟨opens, inked, _⟩ := statements_stand host.grammar_narrow block.body
  exact reads_of_bindings host.grammar_narrow opens inked member

end SnippetReview
