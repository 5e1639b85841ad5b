import SnippetReview.Proofs.Text.Size
import SnippetReview.Text.Position

set_option autoImplicit false

namespace SnippetReview

namespace Search

universe u v

variable {α : Type u} {β : Type v}

theorem boundary_within_map (f : α → β) (before : β → Bool) (xs : Array α) (low high : Nat) (bound : high ≤ xs.size)
    (bound' : high ≤ (xs.map f).size) :
    boundaryWithin before (xs.map f) low high bound' = boundaryWithin (fun x => before (f x)) xs low high bound := by
  fun_induction boundaryWithin (fun x => before (f x)) xs low high bound with
  | case1 low high bound inside middle holds ih =>
    rw [boundaryWithin, dif_pos inside]
    simp only [Array.getElem_map]
    rw [if_pos holds]
    exact ih bound'
  | case2 low high bound inside middle fails ih =>
    rw [boundaryWithin, dif_pos inside]
    simp only [Array.getElem_map]
    rw [if_neg fails]
    exact ih _
  | case3 low high bound outside => rw [boundaryWithin, dif_neg outside]

theorem boundary_map (f : α → β) (before : β → Bool) (xs : Array α) :
    boundary before (xs.map f) = boundary (fun x => before (f x)) xs := by
  have sizes : (xs.map f).size = xs.size := Array.size_map
  unfold boundary
  simp only [sizes]
  exact boundary_within_map f before xs 0 xs.size _ _

theorem boundary_within_of_split {before : α → Bool} {xs : Array α} {place : Nat}
    (first : ∀ i (inside : i < xs.size), i < place → before xs[i] = true)
    (later : ∀ i (inside : i < xs.size), place ≤ i → before xs[i] = false) {low high : Nat} (bound : high ≤ xs.size)
    (above : low ≤ place) (below : place ≤ high) : boundaryWithin before xs low high bound = place := by
  fun_induction boundaryWithin before xs low high bound with
  | case1 low high bound inside middle holds ih =>
    refine ih ?_ below
    by_cases passed : middle < place
    · exact passed
    · have fails := later middle (by omega) (by omega)
      rw [fails] at holds
      contradiction
  | case2 low high bound inside middle fails ih =>
    refine ih above ?_
    by_cases passed : middle < place
    · exact absurd (first middle (by omega) passed) fails
    · omega
  | case3 low high bound outside => omega

theorem boundary_append {before : α → Bool} {xs : Array α} {front back : List α} (split : xs.toList = front ++ back)
    (first : ∀ x ∈ front, before x = true) (later : ∀ x ∈ back, before x = false) :
    boundary before xs = front.length := by
  have size : xs.size = front.length + back.length := by rw [← Array.length_toList, split, List.length_append]
  refine boundary_within_of_split (fun i inside passed => ?_) (fun i inside passed => ?_) (Nat.le_refl _)
    (Nat.zero_le _) (by omega)
  · refine first _ ?_
    have found : xs[i] = front[i] := by rw [← Array.getElem_toList, List.getElem_of_eq split, List.getElem_append_left passed]
    rw [found]
    exact List.getElem_mem passed
  · refine later _ ?_
    have found : xs[i] = back[i - front.length] := by
      rw [← Array.getElem_toList, List.getElem_of_eq split, List.getElem_append_right passed]
    rw [found]
    exact List.getElem_mem _

end Search

namespace Text

def feedsFrom (offset : Nat) : List Char → List Nat
  | [] => []
  | c :: rest => (if c = '\n' then [offset + c.utf8Size] else []) ++ feedsFrom (offset + c.utf8Size) rest

theorem feeds_from_append (offset : Nat) (s t : List Char) :
    feedsFrom offset (s ++ t) = feedsFrom offset s ++ feedsFrom (offset + size s) t := by
  induction s generalizing offset with
  | nil => rfl
  | cons c rest ih =>
    rw [List.cons_append, feedsFrom, feedsFrom, ih, size_cons, List.append_assoc, Nat.add_assoc]

theorem feeds_from_blanks (offset n : Nat) : feedsFrom offset (List.replicate n ' ') = [] := by
  induction n generalizing offset with
  | zero => rfl
  | succ n ih => rw [List.replicate_succ, feedsFrom, ih, if_neg (by decide), List.nil_append]

theorem feeds_from_bounds (offset : Nat) (s : List Char) :
    ∀ feed ∈ feedsFrom offset s, offset < feed ∧ feed ≤ offset + size s := by
  induction s generalizing offset with
  | nil => simp [feedsFrom]
  | cons c rest ih =>
    intro feed member
    have positive := Char.utf8Size_pos c
    rw [feedsFrom, List.mem_append] at member
    rw [size_cons]
    rcases member with here | later
    · have same : feed = offset + c.utf8Size := by
        by_cases isFeed : c = '\n'
        · simpa [isFeed] using here
        · simp [isFeed] at here
      omega
    · have bounds := ih (offset + c.utf8Size) feed later
      omega

theorem length_feeds_from (offset : Nat) (s : List Char) : (feedsFrom offset s).length = s.count '\n' := by
  induction s generalizing offset with
  | nil => rfl
  | cons c rest ih =>
    rw [feedsFrom, List.length_append, ih, List.count_cons]
    by_cases isFeed : c = '\n'
    · simp [isFeed, Nat.add_comm]
    · simp [isFeed]

namespace LineIndex

theorem starts_from_eq (offset : Nat) (found : Array (Nat × List Char)) (s : List Char) :
    ((startsFrom offset found s).map (·.1)).toList = (found.map (·.1)).toList ++ feedsFrom offset s := by
  induction s generalizing offset found with
  | nil => simp [startsFrom, feedsFrom]
  | cons c rest ih =>
    rw [startsFrom, feedsFrom, ih]
    by_cases feed : c = '\n'
    · simp [feed]
    · simp [feed]

theorem starts_of_text (s : List Char) : ((ofText s).starts.map (·.1)).toList = 0 :: feedsFrom 0 s := by
  have table := starts_from_eq 0 #[(0, s)] s
  simpa [ofText] using table

theorem line_of_text (front back : List Char) :
    (ofText (front ++ back)).line (Text.size front) = front.count '\n' + 1 := by
  have within : min (Text.size front) (ofText (front ++ back)).size = Text.size front := by
    change min (Text.size front) (Text.size (front ++ back)) = _
    rw [size_append]
    omega
  have split : ((ofText (front ++ back)).starts.map (·.1)).toList =
      (0 :: feedsFrom 0 front) ++ feedsFrom (Text.size front) back := by
    rw [starts_of_text, feeds_from_append, Nat.zero_add]
    rfl
  unfold line
  rw [within, ← Search.boundary_map (·.1) (fun start => decide (start ≤ Text.size front)) (ofText (front ++ back)).starts]
  rw [Search.boundary_append split, List.length_cons, length_feeds_from]
  · intro start member
    rw [List.mem_cons] at member
    rcases member with rfl | feed
    · exact decide_eq_true (Nat.zero_le _)
    · have bounds := feeds_from_bounds 0 front start feed
      exact decide_eq_true (by omega)
  · intro start member
    have bounds := feeds_from_bounds (Text.size front) back start member
    exact decide_eq_false (by omega)

def SameLines (a b : LineIndex) : Prop := a.size = b.size ∧ a.starts.map (·.1) = b.starts.map (·.1)

theorem same_lines_of_text {s t : List Char} (sizes : Text.size s = Text.size t) (feeds : feedsFrom 0 s = feedsFrom 0 t) :
    SameLines (ofText s) (ofText t) := by
  refine ⟨sizes, Array.toList_inj.mp ?_⟩
  rw [starts_of_text, starts_of_text, feeds]

theorem SameLines.line_eq {a b : LineIndex} (same : SameLines a b) (offset : Nat) : a.line offset = b.line offset := by
  unfold line
  rw [← Search.boundary_map (·.1) (fun start => decide (start ≤ min offset a.size)) a.starts,
    ← Search.boundary_map (·.1) (fun start => decide (start ≤ min offset b.size)) b.starts, same.1, same.2]

theorem same_lines_position (a : LineIndex) (offset : Nat) : SameLines (a.position offset).2 a := ⟨rfl, rfl⟩

theorem SameLines.trans {a b c : LineIndex} (first : SameLines a b) (second : SameLines b c) : SameLines a c :=
  ⟨first.1.trans second.1, first.2.trans second.2⟩

theorem SameLines.symm {a b : LineIndex} (same : SameLines a b) : SameLines b a := ⟨same.1.symm, same.2.symm⟩

end LineIndex

end Text

end SnippetReview
