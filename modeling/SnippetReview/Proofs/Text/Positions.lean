import SnippetReview.Proofs.Text.Seeking

set_option autoImplicit false

namespace SnippetReview.Text

section

variable {s pre post : List Char}

theorem split_at_bytes (n : Nat) (s : List Char) : s = takeBytes n s ++ dropBytes n s := (List.take_append_drop _ s).symm

theorem size_take_bytes_le (n : Nat) (s : List Char) : size (takeBytes n s) ≤ n := by
  induction s generalizing n with
  | nil => exact Nat.zero_le n
  | cons c rest ih =>
    rw [takeBytes, chars_within_cons]
    by_cases fits : c.utf8Size ≤ n
    · have later := ih (n - c.utf8Size)
      rw [if_pos fits, List.take_succ_cons, size_cons]
      change c.utf8Size + size (takeBytes (n - c.utf8Size) rest) ≤ n
      omega
    · rw [if_neg fits, List.take_zero]
      exact Nat.zero_le n

-- A place between two characters is passed as soon as an offset reaches it.
theorem boundary_le_iff (parts : s = pre ++ post) (n : Nat) : size pre ≤ size (takeBytes n s) ↔ size pre ≤ n := by
  constructor
  · exact fun reached => Nat.le_trans reached (size_take_bytes_le n s)
  · intro reached
    obtain ⟨more, rfl⟩ := Nat.exists_eq_add_of_le reached
    rw [parts, take_bytes_append_add, size_append]
    exact Nat.le_add_right _ _

theorem take_bytes_min (n : Nat) (s : List Char) : takeBytes (min n (size s)) s = takeBytes n s := by
  by_cases inside : n ≤ size s
  · rw [Nat.min_eq_left inside]
  · obtain ⟨more, rfl⟩ := Nat.exists_eq_add_of_le (Nat.le_of_not_le inside)
    have whole := take_bytes_append_add s [] more
    rw [List.append_nil] at whole
    rw [Nat.min_eq_right (Nat.le_add_right _ _), take_bytes_all, whole]
    exact (List.append_nil s).symm

theorem take_bytes_again (n : Nat) (s : List Char) : takeBytes (size (takeBytes n s)) s = takeBytes n s := by
  conv => lhs; arg 2; rw [split_at_bytes n s]
  exact take_bytes_append _ _

theorem ordered_places {later post' : List Char} (parts : s = pre ++ post) (parts' : s = later ++ post')
    (ordered : size pre ≤ size later) : ∃ mid, later = pre ++ mid ∧ post = mid ++ post' := by
  rcases List.append_eq_append_iff.mp (parts.symm.trans parts') with ⟨mid, reaches, rest⟩ | ⟨mid, reaches, rest⟩
  · exact ⟨mid, reaches, rest⟩
  · have none : mid = [] := by
      rw [← size_eq_zero_iff]
      rw [reaches, size_append] at ordered
      omega
    rw [none, List.append_nil] at reaches
    rw [none, List.nil_append] at rest
    exact ⟨[], by rw [reaches, List.append_nil], rest.symm⟩

end

structure LastLine (text lines here : List Char) : Prop where
  split : text = lines ++ here
  plain : ∀ c ∈ here, c ≠ '\n'
  fed : lines = [] ∨ ∃ more, lines = more ++ ['\n']

theorem exists_last_line (text : List Char) : ∃ lines here, LastLine text lines here := by
  induction text with
  | nil => exact ⟨[], [], rfl, by simp, .inl rfl⟩
  | cons c rest ih =>
    obtain ⟨lines, here, split, plain, fed⟩ := ih
    rcases fed with rfl | ⟨more, rfl⟩
    · by_cases feed : c = '\n'
      · exact ⟨[c], here, by rw [split]; rfl, plain, .inr ⟨[], by rw [feed]; rfl⟩⟩
      · exact ⟨[], c :: here, by rw [split]; rfl, List.forall_mem_cons.mpr ⟨feed, plain⟩, .inl rfl⟩
    · exact ⟨c :: (more ++ ['\n']), here, by rw [split]; rfl, plain, .inr ⟨c :: more, rfl⟩⟩

namespace Position

theorem past_plain {s : List Char} (plain : ∀ c ∈ s, c ≠ '\n') (p : Position) :
    s.foldl past p = ⟨p.line, p.column + s.length⟩ := by
  induction s generalizing p with
  | nil => rfl
  | cons c rest ih =>
    rw [List.foldl_cons, ih fun d member => plain d (List.mem_cons_of_mem c member), past,
      if_neg (plain c List.mem_cons_self), List.length_cons]
    exact congrArg (Position.mk p.line) (show p.column + 1 + rest.length = p.column + (rest.length + 1) by omega)

theorem past_line (s : List Char) (p : Position) : (s.foldl past p).line = p.line + s.count '\n' := by
  induction s generalizing p with
  | nil => rfl
  | cons c rest ih =>
    rw [List.foldl_cons, ih, past, List.count_cons]
    by_cases feed : c = '\n'
    · rw [if_pos feed, if_pos (beq_iff_eq.mpr feed)]
      exact Nat.add_right_comm _ _ _
    · rw [if_neg feed, if_neg (by simpa using feed)]
      rfl

theorem of_last_line {s lines here : List Char} {offset : Nat} (last : LastLine (takeBytes offset s) lines here) :
    Position.of s offset = ⟨(takeBytes offset s).count '\n' + 1, here.length + 1⟩ := by
  have column : (lines.foldl past ⟨1, 1⟩).column = 1 := by
    rcases last.fed with rfl | ⟨more, rfl⟩
    · rfl
    · rw [List.foldl_append]
      rfl
  have line := past_line (takeBytes offset s) ⟨1, 1⟩
  unfold of
  rw [last.split, List.foldl_append, past_plain last.plain] at line ⊢
  dsimp only at line
  rw [column]
  exact congr (congrArg Position.mk (by omega)) (Nat.add_comm _ _)

end Position

namespace LineIndex

theorem starts_from_stand {whole : List Char} (s : List Char) (done : List Char) (found : Array (Nat × List Char))
    (split : whole = done ++ s) (stand : ∀ start ∈ found, ∃ pre, whole = pre ++ start.2 ∧ start.1 = Text.size pre) :
    ∀ start ∈ startsFrom (Text.size done) found s, ∃ pre, whole = pre ++ start.2 ∧ start.1 = Text.size pre := by
  induction s generalizing done found with
  | nil => exact stand
  | cons c rest ih =>
    have next : Text.size done + c.utf8Size = Text.size (done ++ [c]) := by rw [size_append, size_singleton]
    have split' : whole = done ++ [c] ++ rest := by rw [split, List.append_assoc, List.singleton_append]
    rw [startsFrom, next]
    refine ih (done ++ [c]) _ split' fun start member => ?_
    by_cases feed : c = '\n'
    · rw [if_pos feed, Array.mem_push] at member
      rcases member with earlier | rfl
      · exact stand start earlier
      · exact ⟨done ++ [c], split', rfl⟩
    · rw [if_neg feed] at member
      exact stand start member

theorem starts_stand (s : List Char) : ∀ start ∈ (ofText s).starts, ∃ pre, s = pre ++ start.2 ∧ start.1 = Text.size pre :=
  starts_from_stand s [] #[(0, s)] rfl fun start member => by
    rw [Array.mem_singleton] at member
    exact ⟨[], by rw [member]; rfl, by rw [member]; rfl⟩

theorem line_eq (s : List Char) (offset : Nat) : (ofText s).line offset = (takeBytes offset s).count '\n' + 1 := by
  have whole := line_of_text (takeBytes offset s) (dropBytes offset s)
  rw [← split_at_bytes] at whole
  rw [← whole]
  unfold line
  refine Search.boundary_congr fun start member => ?_
  obtain ⟨pre, parts, place⟩ := starts_stand s start member
  have inside : Text.size pre ≤ Text.size s := by
    rw [parts, size_append]
    exact Nat.le_add_right _ _
  have passed := boundary_le_iff parts offset
  change decide (start.1 ≤ min offset (Text.size s)) = decide (start.1 ≤ min (Text.size (takeBytes offset s)) (Text.size s))
  rw [place, decide_eq_decide]
  omega

theorem start_of_line {s front back lines here : List Char} (parts : s = front ++ back) (last : LastLine front lines here) :
    (ofText s).starts[front.count '\n']? = some (Text.size lines, here ++ back) := by
  have count : front.count '\n' = (feedsFrom 0 lines).length := by
    rw [last.split, List.count_append, List.count_eq_zero.mpr fun member => last.plain '\n' member rfl, length_feeds_from]
    rfl
  have offset : ((ofText s).starts.map (·.1)).toList[front.count '\n']? = some (Text.size lines) := by
    rw [starts_of_text, parts, last.split, List.append_assoc, feeds_from_append, ← last.split, count]
    rcases last.fed with rfl | ⟨more, rfl⟩
    · rfl
    · have one : '\n'.utf8Size = 1 := by decide
      have final : feedsFrom 0 (more ++ ['\n']) = feedsFrom 0 more ++ [Text.size (more ++ ['\n'])] := by
        rw [feeds_from_append, Nat.zero_add, size_append, size_singleton]
        rfl
      rw [final, List.length_append, List.append_assoc, List.length_singleton, List.getElem?_cons_succ,
        List.getElem?_append_right (Nat.le_refl _), Nat.sub_self]
      rfl
  rw [Array.getElem?_toList, Array.getElem?_map, Option.map_eq_some_iff] at offset
  obtain ⟨start, found, place⟩ := offset
  obtain ⟨pre, split, place'⟩ := starts_stand s start (Array.mem_of_getElem? found)
  have whole : s = lines ++ (here ++ back) := by rw [parts, last.split, List.append_assoc]
  have rest := (append_inj_of_size (split.symm.trans whole) (place'.symm.trans place)).2
  rw [found]
  exact congrArg some (Prod.ext place rest)

structure Indexes (index : LineIndex) (s : List Char) : Prop where
  size : index.size = Text.size s
  starts : index.starts = (ofText s).starts
  last : ∀ l ∈ index.last, ∃ pre, s = pre ++ l.rest ∧ l.offset = Text.size pre ∧ l.column = (Position.of s l.offset).column

theorem indexes_of_text (s : List Char) : (ofText s).Indexes s := ⟨rfl, rfl, fun _ member => nomatch member⟩

variable {index : LineIndex} {s : List Char}

theorem Indexes.line (indexes : index.Indexes s) (offset : Nat) : index.line offset = (takeBytes offset s).count '\n' + 1 := by
  rw [← line_eq s offset]
  unfold LineIndex.line
  rw [indexes.size, indexes.starts]
  rfl

-- A place that is known with its column, and from which an offset is reached on the same line.
structure Leads (s : List Char) (offset : Nat) (known : Lookup) (done more : List Char) : Prop where
  front : takeBytes offset s = done ++ more
  rest : known.rest = more ++ dropBytes offset s
  place : known.offset = Text.size done
  first : 1 ≤ known.column
  column : known.column + more.length = (Position.of s offset).column

theorem leads_from_start {offset : Nat} {lines here : List Char} (last : LastLine (takeBytes offset s) lines here) :
    Leads s offset ⟨Text.size lines, 1, here ++ dropBytes offset s⟩ lines here :=
  ⟨last.split, rfl, rfl, Nat.le_refl 1, by rw [Position.of_last_line last]; exact Nat.add_comm _ _⟩

theorem leads_from_lookup (indexes : index.Indexes s) {offset : Nat} {lines here : List Char} {l : Lookup}
    (last : LastLine (takeBytes offset s) lines here) (known : index.last = some l) (onLine : Text.size lines ≤ l.offset)
    (earlier : l.offset ≤ offset) : ∃ done more, Leads s offset l done more := by
  obtain ⟨pre, split, place, column⟩ := indexes.last l known
  have reached : Text.size pre ≤ Text.size (takeBytes offset s) := (boundary_le_iff split offset).mpr (by omega)
  obtain ⟨more, front, rest⟩ := ordered_places split (split_at_bytes offset s) reached
  obtain ⟨mid, before, line⟩ := ordered_places last.split front (by omega)
  have taken : takeBytes l.offset s = pre := by
    rw [place]
    conv => lhs; rw [split]
    exact take_bytes_append pre l.rest
  have there : LastLine (takeBytes l.offset s) lines mid :=
    ⟨taken.trans before, fun c member => last.plain c (by rw [line]; exact List.mem_append_left _ member), last.fed⟩
  rw [Position.of_last_line there] at column
  refine ⟨pre, more, front, rest, place, by rw [column]; exact Nat.le_add_left 1 _, ?_⟩
  rw [column, Position.of_last_line last, line, List.length_append]
  exact Nat.add_right_comm _ _ _

theorem origin_leads (indexes : index.Indexes s) (offset : Nat) :
    ∃ done more, Leads s offset (index.origin (min offset index.size) (index.line offset)) done more := by
  obtain ⟨lines, here, last⟩ := exists_last_line (takeBytes offset s)
  rw [indexes.line]
  unfold origin
  rw [indexes.starts, Nat.add_sub_cancel, start_of_line (split_at_bytes offset s) last, Option.getD_some]
  dsimp only
  cases known : index.last with
  | none => exact ⟨lines, here, leads_from_start last⟩
  | some l =>
    dsimp only
    by_cases onLine : Text.size lines ≤ l.offset ∧ l.offset ≤ min offset index.size
    · rw [if_pos onLine]
      exact leads_from_lookup indexes last known onLine.1 (Nat.le_trans onLine.2 (Nat.min_le_left _ _))
    · rw [if_neg onLine]
      exact ⟨lines, here, leads_from_start last⟩

theorem position_eq (indexes : index.Indexes s) (offset : Nat) :
    index.position offset = (Position.of s offset,
      { index with
        last := some ⟨Text.size (takeBytes offset s), (Position.of s offset).column, dropBytes offset s⟩ }) := by
  have parts := split_at_bytes offset s
  have line : index.line (min offset index.size) = index.line offset := by
    rw [indexes.line, indexes.line, indexes.size, take_bytes_min]
  obtain ⟨done, more, leads⟩ := origin_leads indexes offset
  unfold position
  dsimp only
  rw [line]
  generalize index.origin (min offset index.size) (index.line offset) = known at leads
  -- The cut behind the counted characters is the cut of the whole text.
  have inside : Text.size done ≤ min offset index.size := by
    have reached := size_take_bytes_le offset s
    have total := congrArg Text.size parts
    rw [size_append] at total
    rw [leads.front, size_append] at reached total
    have size := indexes.size
    omega
  obtain ⟨behind, distance⟩ := Nat.exists_eq_add_of_le inside
  have cut : takeBytes behind (more ++ dropBytes offset s) = more := by
    have counted := take_bytes_append_add done (more ++ dropBytes offset s) behind
    rw [← List.append_assoc, ← leads.front, ← parts, ← distance, indexes.size, take_bytes_min, leads.front] at counted
    exact (List.append_cancel_left counted).symm
  have count : charsWithin (min offset index.size - known.offset) known.rest = more.length := by
    rw [leads.place, leads.rest, distance, Nat.add_sub_cancel_left]
    have length := congrArg List.length cut
    rwa [takeBytes, List.length_take_of_le (chars_within_le _ _)] at length
  obtain ⟨lines, here, last⟩ := exists_last_line (takeBytes offset s)
  have lined : Position.of s offset = ⟨index.line offset, (Position.of s offset).column⟩ := by
    rw [indexes.line, Position.of_last_line last]
  rw [count, leads.rest, leads.place, leads.column, List.take_left, List.drop_left, ← size_append, ← leads.front, ← lined]

theorem Indexes.position (indexes : index.Indexes s) (offset : Nat) : (index.position offset).2.Indexes s := by
  rw [position_eq indexes]
  refine ⟨indexes.size, indexes.starts, fun l member => ?_⟩
  obtain rfl := Option.some.inj member
  exact ⟨takeBytes offset s, split_at_bytes offset s, rfl, by rw [Position.of, Position.of, take_bytes_again]⟩

end LineIndex

end SnippetReview.Text
