import Mathlib.Algebra.GroupWithZero.Nat
import SnippetReview.Proofs.Text.Utf8
import SnippetReview.Report.Human

set_option autoImplicit false

namespace SnippetReview

open Text

def feeds (s : String) : Nat := s.toList.count '\n'

def OneLine (s : String) : Prop := '\n' ∉ s.toList

theorem bytes_of_string (s : String) : s.toByteArray.data.toList = bytes s.toList := by
  have encoded : (String.ofList s.toList).toByteArray.data = (bytes s.toList).toArray := List.data_toByteArray
  rw [String.ofList_toList] at encoded
  rw [encoded]

theorem feed_mem_bytes_iff {s : List Char} : (10 : UInt8) ∈ bytes s ↔ '\n' ∈ s := by
  rw [bytes, List.mem_flatMap]
  constructor
  · rintro ⟨c, member, byte⟩
    exact feed_mem_encode byte ▸ member
  · exact fun member => ⟨'\n', member, by decide⟩

-- The bytes of a literal are there at once, where its characters have to be decoded.
instance (s : String) : Decidable (OneLine s) :=
  decidable_of_iff ((10 : UInt8) ∉ s.toByteArray.data.toList) (by rw [bytes_of_string, feed_mem_bytes_iff, OneLine])

theorem feeds_zero_iff {s : String} : feeds s = 0 ↔ OneLine s := List.count_eq_zero

theorem feeds_append (s t : String) : feeds (s ++ t) = feeds s + feeds t := by
  rw [feeds, String.toList_append, List.count_append]
  rfl

theorem feeds_join (lines : List String) : feeds (String.join lines) = (lines.map feeds).sum := by
  rw [feeds, String.toList_join, List.count_flatMap]
  rfl

theorem feeds_unlines (lines : List String) : feeds (unlines lines) = lines.length + (lines.map feeds).sum := by
  have ended : ∀ line : String, feeds (line ++ "\n") = feeds line + 1 := fun line => feeds_append line "\n"
  rw [unlines, feeds_join, List.map_map]
  induction lines with
  | nil => rfl
  | cons line rest ih =>
    simp only [List.map_cons, List.sum_cons, List.length_cons, ih, Function.comp_apply, ended]
    omega

namespace OneLine

@[simp] theorem append_iff {s t : String} : OneLine (s ++ t) ↔ OneLine s ∧ OneLine t := by
  simp [OneLine, not_or]

@[simp] theorem to_string_iff {s : String} : OneLine (toString s) ↔ OneLine s := Iff.rfl

theorem of_chars {cs : List Char} : OneLine (String.ofList cs) ↔ '\n' ∉ cs := by
  rw [OneLine, String.toList_ofList]

theorem of_subset {s : String} {cs : List Char} (whole : OneLine s) (subset : cs ⊆ s.toList) : OneLine (String.ofList cs) :=
  of_chars.mpr fun member => whole (subset member)

theorem repr (n : Nat) : OneLine n.repr := by
  rw [OneLine, Nat.toList_repr]
  intro member
  have digit := Nat.isDigit_of_mem_toDigits (by decide) (by decide) member
  contradiction

@[simp] theorem nat (n : Nat) : OneLine (toString n) := repr n

theorem position (p : Position) : OneLine p.toText := by
  simp only [Position.toText, append_iff, nat, and_true]
  decide

theorem decimal (x : Float) : OneLine (Decimal.plain x) := by
  have zeros : ∀ n, OneLine (Decimal.zeros n) := by
    intro n
    rw [Decimal.zeros, of_chars, List.mem_replicate]
    exact fun zero => absurd zero.2 (by decide)
  have signed : ∀ {text}, OneLine text → OneLine (Decimal.signed x text) := by
    intro text plain
    rw [Decimal.signed]
    split
    · exact append_iff.mpr ⟨by decide, plain⟩
    · exact plain
  have point : ∀ whole n, OneLine (Decimal.pointAfter whole (toString (n : Nat))) := by
    intro whole n
    rw [Decimal.pointAfter, append_iff, append_iff]
    exact ⟨⟨(nat n).of_subset (List.take_subset _ _), by decide⟩, (nat n).of_subset (List.drop_subset _ _)⟩
  rw [Decimal.plain]
  split
  · decide
  · split
    · exact signed (by decide)
    · apply signed
      rw [Decimal.positional]
      split
      · exact append_iff.mpr ⟨nat _, zeros _⟩
      · split
        · exact point _ _
        · exact append_iff.mpr ⟨append_iff.mpr ⟨by decide, zeros _⟩, nat _⟩

end OneLine

theorem feed_not_mem_split {s line : List Char} (member : line ∈ s.splitOn '\n') : '\n' ∉ line := by
  induction s generalizing line with
  | nil =>
    rw [List.splitOn_nil, List.mem_singleton] at member
    rw [member]
    exact List.not_mem_nil
  | cons c rest ih =>
    rw [List.splitOn_cons_eq_if_modifyHead] at member
    by_cases feed : c = '\n'
    · rw [if_pos (beq_iff_eq.mpr feed)] at member
      rcases List.mem_cons.mp member with rfl | further
      · exact List.not_mem_nil
      · exact ih further
    · rw [if_neg (fun same => feed (beq_iff_eq.mp same))] at member
      cases parts : rest.splitOn '\n' with
      | nil =>
        rw [parts] at member
        exact absurd member List.not_mem_nil
      | cons first others =>
        rw [parts] at ih member
        rcases List.mem_cons.mp member with rfl | further
        · rw [List.mem_cons, not_or]
          exact ⟨fun same => feed same.symm, ih List.mem_cons_self⟩
        · exact ih (List.mem_cons_of_mem _ further)

theorem one_line_of_lines {s line : String} (member : line ∈ linesOf s) : OneLine line := by
  obtain ⟨⟨part, index⟩, inside, rfl⟩ := List.mem_map.mp member
  have kept : part ∈ s.toList.splitOn '\n' := by
    have among := List.fst_mem_of_mem_zipIdx inside
    split at among
    · exact List.dropLast_subset _ among
    · exact among
  have plain := feed_not_mem_split kept
  rw [OneLine.of_chars]
  split
  · exact fun feed => plain (List.dropLast_subset _ feed)
  · exact plain

theorem one_line_preview (raw : String) : OneLine (preview raw) := by
  unfold preview
  cases lines : linesOf raw with
  | nil => decide
  | cons first more =>
    have plain : OneLine first := one_line_of_lines (lines ▸ List.mem_cons_self)
    have shortened := plain.of_subset (List.take_subset 60 first.toList)
    dsimp only
    split
    · exact OneLine.append_iff.mpr ⟨shortened, by decide⟩
    · exact shortened

end SnippetReview
