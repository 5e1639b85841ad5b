import SnippetReview.Host.BlockGrammars
import SnippetReview.Proofs.Snippet.Marks
import SnippetReview.Proofs.Snippet.Placing
import SnippetReview.Proofs.Text.Utf8

set_option autoImplicit false

namespace SnippetReview

open Text

namespace Text

theorem trim_parts (s : List Char) : ∃ lead trail, (∀ c ∈ lead, isBlank c = true) ∧ (∀ c ∈ trail, isBlank c = true) ∧
    s = lead ++ trim s ++ trail := by
  obtain ⟨lead, blank, leading⟩ := trim_start_split s
  refine ⟨lead, ((trimStart s).reverse.takeWhile isBlank).reverse, blank, fun c member => ?_, ?_⟩
  · exact List.all_eq_true.mp List.all_takeWhile c (List.mem_reverse.mp member)
  · have parts := congrArg List.reverse (@List.takeWhile_append_dropWhile _ isBlank (trimStart s).reverse)
    rw [List.reverse_append, List.reverse_reverse] at parts
    rw [List.append_assoc]
    exact leading.trans (congrArg (lead ++ ·) parts.symm)

theorem inner_of_ink {lead inner trail front back : List Char} {c : Char} (same : front ++ c :: back = lead ++ inner ++ trail)
    (leading : ∀ c ∈ lead, isBlank c = true) (trailing : ∀ c ∈ trail, isBlank c = true) (ink : isBlank c = false) :
    ∃ left right, front = lead ++ left ∧ inner = left ++ c :: right := by
  have unlead : c ∉ lead := fun member => by simp [leading c member] at ink
  have untrail : c ∉ trail := fun member => by simp [trailing c member] at ink
  rw [List.append_assoc] at same
  -- The character stands behind the blanks in front; likewise it stands before those at the end.
  obtain ⟨left, behind, rest⟩ : ∃ left, front = lead ++ left ∧ inner ++ trail = left ++ c :: back := by
    rcases List.append_eq_append_iff.mp same with ⟨gap, split, rest⟩ | ⟨gap, split, rest⟩
    · cases gap with
      | nil => exact ⟨[], by simpa using split.symm, rest.symm⟩
      | cons d gap =>
        rw [List.cons_append] at rest
        rw [split, (List.cons.inj rest).1] at unlead
        simp at unlead
    · exact ⟨gap, split, rest⟩
  rcases List.append_eq_append_iff.mp rest with ⟨gap, split, rest⟩ | ⟨gap, split, rest⟩
  · rw [rest] at untrail
    simp at untrail
  · cases gap with
    | nil =>
      rw [List.nil_append] at rest
      rw [← rest] at untrail
      simp at untrail
    | cons d gap =>
      rw [List.cons_append] at rest
      exact ⟨left, gap, behind, by rw [split, (List.cons.inj rest).1]⟩

theorem place_cases {front back piece rest : List Char} {c d : Char} (same : front ++ c :: back = piece ++ d :: rest) :
    (∃ gap, piece = front ++ c :: gap) ∨ (front = piece ∧ c = d) ∨
      ∃ gap, front = piece ++ d :: gap ∧ rest = gap ++ c :: back := by
  rcases List.append_eq_append_iff.mp same with ⟨gap, before, behind⟩ | ⟨gap, before, behind⟩
  · cases gap with
    | nil => exact .inr (.inl ⟨by simpa using before.symm, (List.cons.inj behind).1⟩)
    | cons e gap =>
      left
      exact ⟨gap, by rw [before, (List.cons.inj behind).1]⟩
  · cases gap with
    | nil => exact .inr (.inl ⟨by simpa using before, (List.cons.inj behind).1.symm⟩)
    | cons e gap =>
      obtain ⟨first, behind⟩ := List.cons.inj behind
      exact .inr (.inr ⟨gap, by rw [before, first], behind⟩)

namespace Slice

def Holds (s : Slice) (place : Nat) : Prop := s.start ≤ place ∧ place < s.stop

instance (s : Slice) (place : Nat) : Decidable (s.Holds place) := inferInstanceAs (Decidable (_ ∧ _))

end Slice

end Text

section

variable {base : Nat} {text : List Char}

theorem keep_holds (base : Nat) (done : List Char) {piece front back : List Char} {c : Char} (later : List Char) (pieces : List Slice)
    (parts : piece = front ++ c :: back) (ink : isBlank c = false) :
    ∃ s ∈ keepTrimmed (Slice.place (base + size done) piece later) pieces, s.Holds (base + size (done ++ front)) := by
  obtain ⟨lead, trail, leading, trailing, whole⟩ := trim_parts piece
  obtain ⟨left, right, behind, within⟩ := inner_of_ink (parts.symm.trans whole) leading trailing ink
  have some : trim piece ≠ [] := by
    rw [within]
    simp
  have trimmed := Slice.trim_place leading trailing (inked_trim some) (base + size done) later
  rw [← whole] at trimmed
  have sized : size (trim piece) ≠ 0 := fun none => some (size_eq_zero_iff.mp none)
  refine ⟨Slice.place (base + size done + size lead) (trim piece) (trail ++ later), ?_, ?_⟩
  · unfold keepTrimmed
    simp only [trimmed, Slice.size_place, if_neg sized, List.mem_cons, true_or]
  · have positive := Char.utf8Size_pos c
    rw [Slice.Holds, Slice.stop, Slice.start_place, Slice.size_place, within, behind]
    simp only [size_append, size_cons]
    omega

theorem mem_keep {piece s : Slice} {pieces : List Slice} (member : s ∈ pieces) : s ∈ keepTrimmed piece pieces := by
  unfold keepTrimmed
  dsimp only
  split
  · exact member
  · exact List.mem_cons_of_mem _ member

theorem mem_pieces_from {stop start : Nat} {pieces : List Slice} {tail : List Char} {vs : List Visit} {s : Slice}
    (member : s ∈ pieces) : s ∈ piecesFrom base stop pieces start tail vs := by
  induction vs generalizing pieces start tail with
  | nil =>
    rw [piecesFrom, List.mem_reverse]
    exact mem_keep member
  | cons v rest ih => exact ih (mem_keep member)

theorem pieces_from_cover {done tail : List Char} {vs : List Visit} (pieces : List Slice) (split : text = done ++ tail)
    (row : InRow done tail vs) (ones : ∀ v ∈ vs, v.char.utf8Size = 1) {front back : List Char} {c : Char}
    (parts : tail = front ++ c :: back)
    (outside : ∀ s ∈ piecesFrom base (size text) pieces (size done) tail vs, ¬ s.Holds (base + size (done ++ front))) :
    isBlank c = true ∨ ∃ v ∈ vs, v.offset = size (done ++ front) ∧ v.char = c := by
  cases ink : isBlank c with
  | true => exact .inl rfl
  | false =>
    right
    induction vs generalizing done tail pieces front with
    | nil =>
      obtain ⟨s, member, holds⟩ := keep_holds base done [] pieces parts ink
      rw [← place_to_end split] at member
      exact absurd holds (outside s (List.mem_reverse.mpr member))
    | cons v rest ih =>
      obtain ⟨piece, stands, offset, -, later⟩ := row
      -- The character stands in the first piece, at the first place to cut, or behind both.
      rcases place_cases (parts.symm.trans stands) with ⟨gap, before⟩ | ⟨same, char⟩ | ⟨gap, before, behind⟩
      · obtain ⟨s, member, holds⟩ := keep_holds base done (v.char :: v.rest) pieces before ink
        rw [piecesFrom, place_up_to stands offset] at outside
        exact absurd holds (outside s (mem_pieces_from member))
      · exact ⟨v, List.mem_cons_self, by rw [offset, same], char.symm⟩
      · have place : done ++ front = done ++ piece ++ [v.char] ++ gap := by rw [before]; simp
        rw [piecesFrom, offset_behind offset (ones v List.mem_cons_self), place] at outside
        obtain ⟨u, member, found⟩ := ih _ (by rw [split, stands]; simp) later
          (fun u member => ones u (List.mem_cons_of_mem v member)) behind outside
        rw [← place] at found
        exact ⟨u, List.mem_cons_of_mem v member, found⟩

theorem mem_of_keep {piece s : Slice} {pieces : List Slice} (member : s ∈ keepTrimmed piece pieces) :
    s ∈ pieces ∨ s = piece.trim ∧ piece.trim.size ≠ 0 := by
  unfold keepTrimmed at member
  dsimp only at member
  split at member
  · exact .inl member
  next some => exact (List.mem_cons.mp member).symm.imp_right fun same => ⟨same, some⟩

theorem start_of_keep {piece s : Slice} {pieces : List Slice} (member : s ∈ keepTrimmed piece pieces) :
    s ∈ pieces ∨ piece.start ≤ s.start := by
  refine (mem_of_keep member).imp_right fun ⟨same, _⟩ => ?_
  rw [same]
  exact Nat.le_add_right _ _

theorem start_of_pieces_from {done tail : List Char} {vs : List Visit} {pieces : List Slice} (row : InRow done tail vs)
    (ones : ∀ v ∈ vs, v.char.utf8Size = 1) {s : Slice}
    (member : s ∈ piecesFrom base (size text) pieces (size done) tail vs) : s ∈ pieces ∨ base + size done ≤ s.start := by
  induction vs generalizing done tail pieces with
  | nil =>
    rw [piecesFrom, List.mem_reverse] at member
    exact start_of_keep member
  | cons v rest ih =>
    obtain ⟨piece, -, offset, -, later⟩ := row
    rw [piecesFrom, offset_behind offset (ones v List.mem_cons_self)] at member
    rcases ih later (fun u inside => ones u (List.mem_cons_of_mem v inside)) member with old | behind
    · exact start_of_keep old
    · right
      rw [size_append, size_append] at behind
      omega

theorem pieces_from_apart {done tail : List Char} {vs : List Visit} {pieces : List Slice} (split : text = done ++ tail)
    (row : InRow done tail vs) (ones : ∀ v ∈ vs, v.char.utf8Size = 1) (laid : Laid base text (base + size done) pieces)
    {s : Slice} (member : s ∈ piecesFrom base (size text) pieces (size done) tail vs) {v : Visit} (cut : v ∈ vs) :
    ¬ s.Holds (base + v.offset) := by
  induction vs generalizing done tail pieces with
  | nil => exact absurd cut List.not_mem_nil
  | cons u rest ih =>
    obtain ⟨piece, stands, offset, -, later⟩ := row
    have others : ∀ w ∈ rest, w.char.utf8Size = 1 := fun w inside => ones w (List.mem_cons_of_mem u inside)
    have opens : (Slice.place (base + size done) piece (u.char :: u.rest)).OpensIn base text :=
      ⟨done, piece, u.char :: u.rest, by rw [split, stands, List.append_assoc], rfl⟩
    have upTo : Laid base text (base + u.offset) (keepTrimmed (Slice.place (base + size done) piece (u.char :: u.rest)) pieces) := by
      apply laid.keep opens (Nat.le_refl _)
      apply Nat.le_of_eq
      rw [Slice.stop, Slice.start_place, Slice.size_place, offset, size_append, Nat.add_assoc]
    have next := offset_behind offset (ones u List.mem_cons_self)
    rw [piecesFrom, next, place_up_to stands offset] at member
    rcases List.mem_cons.mp cut with rfl | further
    · -- What was kept ends before this place to cut, and what is yet to come starts behind it.
      rintro ⟨above, below⟩
      rcases start_of_pieces_from later others member with old | behind
      · have limit := upTo.before s old
        omega
      · omega
    · refine ih (by rw [split, stands]; simp) later others ⟨upTo.opens, upTo.inked, fun s inside => ?_, upTo.ordered⟩ member
        further
      have limit := upTo.before s inside
      omega

end

theorem mem_cuts {g : Grammar} {text separators : List Char} {v : Visit} : v ∈ cuts g text separators ↔
    v ∈ visits g text ∧ v.depth = 0 ∧ v.char ∈ separators ∧ v.continues = false := by
  simp [cuts, and_assoc]

theorem cuts_in_row (g : Grammar) (text separators : List Char) : InRow [] text (cuts g text separators) :=
  (visits_in_row g text).filter _

/-- What a text is cut into: pieces of it without blanks around them, one behind the other. A character outside of
them is a blank or a separator that the walk visits outside all brackets. Such a separator in a piece is a line
feed, and what the walk looks back on there lets a statement go on. -/
theorem split_covers {separators : List Char} (ascii : ∀ c ∈ separators, c.toNat < 128) (g : Grammar) (base : Nat)
    (text : List Char) :
    (∀ s ∈ split g base text separators, s.OpensIn base text ∧ Inked s.text) ∧
      (split g base text separators).Pairwise (fun earlier later => earlier.stop ≤ later.start) ∧
      (∀ front c back, text = front ++ c :: back →
        (∀ s ∈ split g base text separators, ¬ s.Holds (base + size front)) →
          isBlank c = true ∨
            c ∈ separators ∧ ∃ v ∈ visits g text, v.offset = size front ∧ v.char = c ∧ v.depth = 0) ∧
      ∀ v ∈ visits g text, v.depth = 0 → v.char ∈ separators →
        ∀ s ∈ split g base text separators, s.Holds (base + v.offset) →
          v.char = '\n' ∧ ∃ done later, tokens g text = done ++ .code '\n' :: later ∧ v.offset = size (flatten done) ∧
            v.previous = lastMark done ∧ ∃ last ∈ v.previous, last ∈ continuationChars := by
  have ones : ∀ c ∈ separators, c.utf8Size = 1 := fun c member => utf8_size_ascii (ascii c member)
  have row := cuts_in_row g text separators
  have single : ∀ v ∈ cuts g text separators, v.char.utf8Size = 1 := fun v member => ones v.char (mem_cuts.mp member).2.2.1
  have laid := split_laid ones g base text
  refine ⟨fun s member => ?_, ?_, fun front c back parts outside => ?_, fun v visited level separates s member holds => ?_⟩
  · exact ⟨laid.opens s (List.mem_reverse.mpr member), laid.inked s (List.mem_reverse.mpr member)⟩
  · exact List.pairwise_reverse.mp laid.ordered
  · rcases pieces_from_cover [] (List.nil_append text).symm row single parts outside with blank | ⟨v, cut, offset, char⟩
    · exact .inl blank
    · obtain ⟨visited, level, separates, -⟩ := mem_cuts.mp cut
      exact .inr ⟨char ▸ separates, v, visited, offset, char, level⟩
  · -- A separator that is no place to cut is a line break that goes on.
    have goesOn : v.continues = true := by
      by_cases continues : v.continues = true
      · exact continues
      · rw [Bool.not_eq_true] at continues
        have cut := mem_cuts.mpr ⟨visited, level, separates, continues⟩
        exact absurd holds (pieces_from_apart (List.nil_append text).symm row single (.nil _ _ _) member cut)
    rw [Visit.continues, Bool.and_eq_true, beq_iff_eq] at goesOn
    obtain ⟨feed, before⟩ := goesOn
    obtain ⟨done, later, place, offset, previous⟩ := place_of_visits visited
    rw [feed] at place
    refine ⟨feed, done, later, place, offset, previous, ?_⟩
    cases last : v.previous with
    | none =>
      rw [last] at before
      contradiction
    | some d =>
      rw [last] at before
      exact ⟨d, rfl, List.contains_iff_mem.mp before⟩

theorem split_covers_javascript :
    let g := Host.javascript.grammar
    let text := "a: 1 +\n2, b: 3".toList
    let pieces := split g 0 text [',', '\n']
    (∀ c ∈ [',', '\n'], c.toNat < 128) ∧ pieces.map Slice.text = ["a: 1 +\n2".toList, "b: 3".toList] ∧
      (∃ v ∈ visits g text, v.offset = 8 ∧ v.char = ',' ∧ v.depth = 0) ∧
      ∃ v ∈ visits g text, v.offset = 6 ∧ ∃ last ∈ v.previous, last ∈ continuationChars := by
  intro g text pieces
  have ascii : ∀ c ∈ [',', '\n'], c.toNat < 128 := by decide
  obtain ⟨-, -, cover, goesOn⟩ := split_covers ascii g 0 text
  have outside : ∀ s ∈ pieces, ¬ s.Holds (0 + size "a: 1 +\n2".toList) := by decide +kernel
  have comma := (cover "a: 1 +\n2".toList ',' " b: 3".toList rfl outside).resolve_left (by decide)
  have looked : (visits g text)[6]?.map (fun v => (v.offset, v.char, v.depth)) = some (6, '\n', 0) := by decide +kernel
  obtain ⟨v, here, same⟩ := Option.map_eq_some_iff.mp looked
  have visited : v ∈ visits g text := List.mem_of_getElem? here
  have offset : v.offset = 6 := congrArg (·.1) same
  have char : v.char = '\n' := congrArg (·.2.1) same
  have first : ∃ s ∈ pieces, s.Holds (0 + 6) := by decide +kernel
  obtain ⟨s, member, holds⟩ := first
  obtain ⟨-, done, later, -, -, -, last⟩ :=
    goesOn v visited (congrArg (·.2.2) same) (by rw [char]; decide) s member (by rwa [offset])
  exact ⟨ascii, by decide +kernel, comma.2, v, visited, offset, last⟩

end SnippetReview
