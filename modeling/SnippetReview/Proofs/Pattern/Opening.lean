import SnippetReview.Host.Grammar
import SnippetReview.Proofs.Text.Size

set_option autoImplicit false

namespace SnippetReview.Pattern

open Text

-- Of the places that a gap can end at, only the one before the sign leads on.
theorem run_sign {blanks later : List Char} {sign : Char} (blank : ∀ b ∈ blanks, isBlank b = true)
    (ink : isBlank sign = false) (remembered : Option (Cursor × Nat)) (passed : List Place) (offset : Nat)
    (before : Option Char) :
    (run isBlank remembered passed offset before (blanks ++ sign :: later)).flatMap (exactly [sign]).ends =
      ⟨⟨offset + size blanks + sign.utf8Size, some sign, later⟩, remembered⟩ :: passed.flatMap (exactly [sign]).ends := by
  induction blanks generalizing passed offset before with
  | nil =>
    rw [List.nil_append, run, ink, if_neg Bool.false_ne_true, List.flatMap_cons, size_nil, Nat.add_zero]
    have here : [sign].isPrefixOf (sign :: later) = true := List.isPrefixOf_iff_prefix.mpr ⟨later, rfl⟩
    rw [ends, here, if_pos rfl]
    rfl
  | cons b blanks ih =>
    have other : sign ≠ b := by
      intro same
      rw [same, blank b List.mem_cons_self] at ink
      contradiction
    have absent : [sign].isPrefixOf (b :: (blanks ++ sign :: later)) = false := by
      rw [List.isPrefixOf_cons_cons, beq_eq_false_iff_ne.mpr other, Bool.false_and]
    rw [List.cons_append, run, blank b List.mem_cons_self, if_pos rfl,
      ih fun c member => blank c (List.mem_cons_of_mem b member), List.flatMap_cons, ends, absent, size_cons,
      Nat.add_assoc offset b.utf8Size]
    rfl

theorem ends_gap_sign {p : Pattern} {place : Place} {offset : Nat} {before : Option Char} {blanks later : List Char}
    {sign : Char} (reached : p.ends place = [⟨⟨offset, before, blanks ++ sign :: later⟩, none⟩])
    (blank : ∀ b ∈ blanks, isBlank b = true) (ink : isBlank sign = false) :
    (p ++ gap ++ exactly [sign]).ends place = [⟨⟨offset + size blanks + sign.utf8Size, some sign, later⟩, none⟩] := by
  change ((p.ends place).flatMap gap.ends).flatMap (exactly [sign]).ends = _
  rw [reached, List.flatMap_singleton]
  exact run_sign blank ink none [] offset before

theorem collect_eq (p : Pattern) (found : List Match) (resume offset : Nat) (before : Option Char) (s : List Char) :
    p.collect found resume offset before s = found.reverse ++ p.collect [] resume offset before s := by
  induction s generalizing found resume offset before with
  | nil =>
    rw [collect, collect]
    split
    · rw [List.reverse_cons]
      rfl
    · rw [List.reverse_nil, List.append_nil]
  | cons c rest ih =>
    rw [collect, collect]
    split
    next m _ => rw [ih (m :: found), ih [m], List.reverse_cons, List.append_assoc]; rfl
    next => exact ih found _ _ _

theorem all_of_start {p : Pattern} {s : List Char} {m : Match} (found : p.matchAt (Cursor.start s) = some m) :
    ∃ others, p.all s = m :: others := by
  have here : (if 0 ≤ 0 then p.matchAt ⟨0, none, s⟩ else none) = some m := (if_pos (Nat.le_refl 0)).trans found
  unfold all
  cases s with
  | nil =>
    rw [collect, here]
    exact ⟨[], rfl⟩
  | cons c rest =>
    rw [collect, here]
    simp only
    rw [collect_eq]
    exact ⟨_, rfl⟩

end SnippetReview.Pattern
