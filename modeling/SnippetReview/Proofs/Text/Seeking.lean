import SnippetReview.Proofs.Text.LineStarts

set_option autoImplicit false

namespace SnippetReview

namespace Search

variable {α : Type}

theorem boundary_within_congr {before before' : α → Bool} {xs : Array α} (same : ∀ x ∈ xs, before x = before' x)
    (low high : Nat) (bound : high ≤ xs.size) :
    boundaryWithin before xs low high bound = boundaryWithin before' xs low high bound := by
  fun_induction boundaryWithin before xs low high bound with
  | case1 low high bound inside middle holds ih =>
    rw [same _ (Array.getElem_mem _)] at holds
    rw [ih]
    symm
    rw [boundaryWithin, dif_pos inside]
    simp only
    rw [if_pos holds]
  | case2 low high bound inside middle fails ih =>
    rw [same _ (Array.getElem_mem _)] at fails
    rw [ih]
    symm
    rw [boundaryWithin, dif_pos inside]
    simp only
    rw [if_neg fails]
  | case3 low high bound outside => rw [boundaryWithin, dif_neg outside]

theorem boundary_congr {before before' : α → Bool} {xs : Array α} (same : ∀ x ∈ xs, before x = before' x) :
    boundary before xs = boundary before' xs := boundary_within_congr same 0 xs.size (Nat.le_refl _)

end Search

namespace Text

theorem chars_within_append_add (front s : List Char) (bytes : Nat) :
    charsWithin (size front + bytes) (front ++ s) = front.length + charsWithin bytes s := by
  induction front with
  | nil => rw [List.nil_append, size_nil, List.length_nil, Nat.zero_add, Nat.zero_add]
  | cons c rest ih =>
    rw [List.cons_append, size_cons, chars_within_cons, if_pos (by omega), Nat.add_assoc, Nat.add_sub_cancel_left, ih,
      List.length_cons]
    omega

theorem chars_within_append_of_le {s : List Char} {bytes : Nat} (inside : bytes ≤ size s) (back : List Char) :
    charsWithin bytes (s ++ back) = charsWithin bytes s := by
  induction s generalizing bytes with
  | nil =>
    have zero : bytes = 0 := by simpa using inside
    rw [zero, chars_within_zero, chars_within_zero]
  | cons c rest ih =>
    rw [size_cons] at inside
    rw [List.cons_append, chars_within_cons, chars_within_cons, ih (by omega)]

theorem chars_within_le (bytes : Nat) (s : List Char) : charsWithin bytes s ≤ s.length := by
  induction s generalizing bytes with
  | nil => exact Nat.le_refl 0
  | cons c rest ih =>
    rw [chars_within_cons, List.length_cons]
    split
    · exact Nat.succ_le_succ (ih _)
    · exact Nat.zero_le _

theorem take_bytes_append_of_le {s : List Char} {bytes : Nat} (inside : bytes ≤ size s) (back : List Char) :
    takeBytes bytes (s ++ back) = takeBytes bytes s := by
  rw [takeBytes, takeBytes, chars_within_append_of_le inside, List.take_append_of_le_length (chars_within_le bytes s)]

theorem drop_bytes_append_of_le {s : List Char} {bytes : Nat} (inside : bytes ≤ size s) (back : List Char) :
    dropBytes bytes (s ++ back) = dropBytes bytes s ++ back := by
  rw [dropBytes, dropBytes, chars_within_append_of_le inside, List.drop_append_of_le_length (chars_within_le bytes s)]

theorem take_bytes_append_add (front s : List Char) (bytes : Nat) :
    takeBytes (size front + bytes) (front ++ s) = front ++ takeBytes bytes s := by
  rw [takeBytes, takeBytes, chars_within_append_add, List.take_length_add_append]

theorem drop_bytes_append_add (front s : List Char) (bytes : Nat) :
    dropBytes (size front + bytes) (front ++ s) = dropBytes bytes s := by
  rw [dropBytes, dropBytes, chars_within_append_add, List.drop_length_add_append]

theorem size_take_drop_bytes (bytes : Nat) (s : List Char) :
    size (takeBytes bytes s) + size (dropBytes bytes s) = size s := by
  rw [takeBytes, dropBytes, ← size_append, List.take_append_drop]

namespace Cursor

theorem advance_eq (n : Nat) (cursor : Cursor) : (cursor.advance n).rest = cursor.rest.drop n ∧
    (cursor.advance n).offset = cursor.offset + Text.size (cursor.rest.take n) := by
  induction n generalizing cursor with
  | zero => exact ⟨rfl, rfl⟩
  | succ n ih =>
    obtain ⟨offset, before, rest⟩ := cursor
    cases rest with
    | nil => exact ⟨rfl, rfl⟩
    | cons c rest =>
      obtain ⟨behind, here⟩ := ih ⟨offset + c.utf8Size, some c, rest⟩
      refine ⟨behind, here.trans ?_⟩
      rw [List.take_succ_cons, size_cons, Nat.add_assoc]

theorem seek_rest (offset : Nat) (cursor : Cursor) :
    (cursor.seek offset).rest = dropBytes (offset - cursor.offset) cursor.rest := (advance_eq _ cursor).1

theorem seek_offset (offset : Nat) (cursor : Cursor) :
    (cursor.seek offset).offset = cursor.offset + Text.size (takeBytes (offset - cursor.offset) cursor.rest) :=
  (advance_eq _ cursor).2

-- A cursor in a text of some size, and one at the same place of a longer text with `n` more bytes in front
-- and `back` behind. The second one may be further back as long as the first one stands at the start.
structure Beside (n total : Nat) (back : List Char) (a b : Cursor) : Prop where
  total : a.offset + Text.size a.rest = total
  rest : ∃ front, (front = [] ∨ a.offset = 0) ∧ b.rest = front ++ (a.rest ++ back) ∧
    b.offset + Text.size front = a.offset + n

namespace Beside

variable {n total : Nat} {back : List Char} {a b : Cursor}

theorem start (front s back : List Char) :
    Beside (Text.size front) (Text.size s) back (Cursor.start s) (Cursor.start (front ++ (s ++ back))) :=
  ⟨Nat.zero_add _, front, .inr rfl, rfl, rfl⟩

theorem seek (beside : Beside n total back a b) {offset : Nat} (inside : offset ≤ total) :
    Beside n total back (a.seek offset) (b.seek (offset + n)) ∧
      (b.seek (offset + n)).rest = (a.seek offset).rest ++ back ∧
      (b.seek (offset + n)).offset = (a.seek offset).offset + n := by
  have whole := beside.total
  have sum := size_take_drop_bytes (offset - a.offset) a.rest
  have room : offset - a.offset ≤ Text.size a.rest := by omega
  obtain ⟨front, behind, stands, place⟩ := beside.rest
  have distance : offset + n - b.offset = Text.size front + (offset - a.offset) := by
    rcases behind with none | zero
    · rw [none, size_nil] at place ⊢
      omega
    · omega
  have rest : (b.seek (offset + n)).rest = (a.seek offset).rest ++ back := by
    rw [seek_rest, seek_rest, stands, distance, drop_bytes_append_add, drop_bytes_append_of_le room]
  have moved : (b.seek (offset + n)).offset = (a.seek offset).offset + n := by
    rw [seek_offset, seek_offset, stands, distance, take_bytes_append_add, take_bytes_append_of_le room, size_append]
    omega
  refine ⟨⟨?_, [], .inl rfl, by rw [rest, List.nil_append], by rw [moved, size_nil, Nat.add_zero]⟩, rest, moved⟩
  rw [seek_rest, seek_offset]
  omega

theorem up_to (beside : Beside n total back a b) {start stop : Nat} (ordered : start ≤ stop) (inside : stop ≤ total) :
    (b.seek (start + n)).upTo (stop + n) = (a.seek start).upTo stop := by
  obtain ⟨next, rest, moved⟩ := beside.seek (Nat.le_trans ordered inside)
  have whole := next.total
  rw [upTo, upTo, rest, moved, Nat.add_sub_add_right, take_bytes_append_of_le (by omega)]

end Beside

end Cursor

namespace LineIndex

theorem feeds_from_shift (n offset : Nat) (s : List Char) : feedsFrom (offset + n) s = (feedsFrom offset s).map (· + n) := by
  induction s generalizing offset with
  | nil => rfl
  | cons c rest ih =>
    have next : offset + n + c.utf8Size = offset + c.utf8Size + n := Nat.add_right_comm _ _ _
    rw [feedsFrom, feedsFrom, next, ih, List.map_append]
    split <;> rfl

theorem feeds_from_none {s : List Char} (plain : ∀ c ∈ s, c ≠ '\n') (offset : Nat) : feedsFrom offset s = [] := by
  induction s generalizing offset with
  | nil => rfl
  | cons c rest ih =>
    rw [feedsFrom, if_neg (plain c List.mem_cons_self), ih fun d member => plain d (List.mem_cons_of_mem c member)]
    rfl

theorem line_enclosed {front back : List Char} (plain : ∀ c ∈ front, c ≠ '\n') (plain' : ∀ c ∈ back, c ≠ '\n')
    (s : List Char) (offset : Nat) :
    (ofText (front ++ (s ++ back))).line (offset + Text.size front) = (ofText s).line offset := by
  let moved : Nat → Nat := fun start => if start = 0 then 0 else start + Text.size front
  have table : (ofText (front ++ (s ++ back))).starts.map (·.1) = ((ofText s).starts.map (·.1)).map moved := by
    refine Array.toList_inj.mp ?_
    rw [starts_of_text, feeds_from_append, feeds_from_append, feeds_from_none plain, feeds_from_none plain',
      List.append_nil, List.nil_append, feeds_from_shift, Array.toList_map, starts_of_text, List.map_cons]
    refine congrArg (0 :: ·) (List.map_congr_left fun start member => ?_)
    have positive := (feeds_from_bounds 0 s start member).1
    exact (if_neg (by omega)).symm
  have size : (ofText (front ++ (s ++ back))).size = Text.size front + ((ofText s).size + Text.size back) := by
    change Text.size (front ++ (s ++ back)) = Text.size front + (Text.size s + Text.size back)
    rw [size_append, size_append]
  have reach : ∀ start ∈ (ofText s).starts.map (·.1), start ≤ (ofText s).size := by
    intro start member
    rw [← Array.mem_toList_iff, starts_of_text, List.mem_cons] at member
    rcases member with rfl | feed
    · exact Nat.zero_le _
    · have bounds := feeds_from_bounds 0 s start feed
      change start ≤ Text.size s
      omega
  unfold line
  rw [← Search.boundary_map (·.1) (fun start => decide (start ≤ min (offset + Text.size front) _))
    (ofText (front ++ (s ++ back))).starts, table, Search.boundary_map,
    ← Search.boundary_map (·.1) (fun start => decide (start ≤ min offset (ofText s).size)) (ofText s).starts, size]
  refine Search.boundary_congr fun start member => ?_
  have inside := reach start member
  rw [decide_eq_decide]
  unfold moved
  split <;> omega

end LineIndex

end Text

end SnippetReview
