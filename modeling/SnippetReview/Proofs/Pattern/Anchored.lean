import SnippetReview.Pattern

set_option autoImplicit false

namespace SnippetReview.Pattern

open Text

def isAnchored : Pattern → Bool
  | textStart => true
  | cat first _ => first.isAnchored
  | group inner => inner.isAnchored
  | either left right => left.isAnchored && right.isAnchored
  | _ => false

theorem ends_of_anchored {p : Pattern} (anchored : p.isAnchored = true) {place : Place} (inside : place.cursor.offset ≠ 0) :
    p.ends place = [] := by
  induction p with
  | textStart => simp [ends, inside]
  | cat first second ihFirst _ => simp [ends, ihFirst anchored]
  | group inner ih => simp [ends, ih anchored]
  | either left right ihLeft ihRight =>
    rw [isAnchored, Bool.and_eq_true] at anchored
    simp [ends, ihLeft anchored.1, ihRight anchored.2]
  | exactly | one | many | optional | wordEdge | lineStart | textEnd => contradiction

theorem find_from_of_anchored {p : Pattern} (anchored : p.isAnchored = true) {offset : Nat} (inside : offset ≠ 0)
    (before : Option Char) (s : List Char) : p.findFrom offset before s = none := by
  have fails : ∀ {offset : Nat} (before : Option Char) (rest : List Char), offset ≠ 0 →
      p.matchAt ⟨offset, before, rest⟩ = none := by
    intro offset before rest inside
    have none : p.ends ⟨⟨offset, before, rest⟩, .none⟩ = [] := ends_of_anchored anchored inside
    rw [matchAt, none]
    rfl
  induction s generalizing offset before with
  | nil => rw [findFrom, fails before [] inside]
  | cons c rest ih =>
    have later : offset + c.utf8Size ≠ 0 := by omega
    rw [findFrom, fails before _ inside]
    exact ih later _

theorem find_of_anchored {p : Pattern} (anchored : p.isAnchored = true) (s : List Char) :
    p.find? s = p.matchAt (Cursor.start s) := by
  cases s with
  | nil => rfl
  | cons c rest =>
    have later : 0 + c.utf8Size ≠ 0 := by
      have positive := Char.utf8Size_pos c
      omega
    rw [find?, findFrom, find_from_of_anchored anchored later]
    unfold Cursor.start
    cases p.matchAt ⟨0, none, c :: rest⟩ <;> rfl

theorem find_none_of_ends {p : Pattern} (anchored : p.isAnchored = true) {s : List Char}
    (none : (p.ends ⟨Cursor.start s, .none⟩).isEmpty = true) : p.find? s = .none := by
  rw [find_of_anchored anchored, matchAt, List.isEmpty_iff.mp none]
  rfl

end SnippetReview.Pattern
