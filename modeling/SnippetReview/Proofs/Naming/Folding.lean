import SnippetReview.Naming
import SnippetReview.Proofs.Text.LowerCase

set_option autoImplicit false

namespace SnippetReview.Naming

open Text

theorem fold_chars_append (s t : List Char) : foldChars (s ++ t) = foldChars s ++ foldChars t := by
  unfold foldChars
  rw [List.filter_append, List.flatMap_append]

theorem fold_chars_cons (c : Char) (rest : List Char) : foldChars (c :: rest) = foldChars [c] ++ foldChars rest :=
  fold_chars_append [c] rest

theorem fold_mark : foldChars ['_'] = [] := rfl

theorem fold_single {c : Char} (noMark : c ≠ '_') : foldChars [c] = lowerChar c := by
  have kept : [c].filter (· != '_') = [c] := List.filter_cons_of_pos (bne_iff_ne.mpr noMark)
  rw [foldChars, kept]
  exact List.append_nil _

theorem fold_lower {c : Char} (noMark : c ≠ '_') : foldChars (lowerChar c) = lowerChar c := by
  have kept : (lowerChar c).filter (· != '_') = lowerChar c := by
    refine List.filter_eq_self.mpr fun d member => bne_iff_ne.mpr fun mark => noMark ?_
    rw [mark] at member
    exact mark_mem_lower member
  rw [foldChars, kept, lower_char_lower]

theorem fold_lower_char (c : Char) : foldChars (lowerChar c) = foldChars [c] := by
  by_cases mark : c = '_'
  · rw [mark]
    rfl
  · rw [fold_lower mark, fold_single mark]

theorem fold_to_upper (c : Char) : foldChars [c.toUpper] = foldChars [c] := by
  by_cases ascii : c.toNat < 128
  · obtain ⟨small, again, mark⟩ := ascii_upper ascii
    by_cases isMark : c = '_'
    · rw [isMark]
      rfl
    · rw [fold_single isMark, fold_single fun same => isMark (mark same), lower_char_ascii ascii, lower_char_ascii small, again]
  · rw [to_upper_high ascii]

theorem fold_to_lower (c : Char) : foldChars [c.toLower] = foldChars [c] := by
  by_cases ascii : c.toNat < 128
  · rw [← lower_char_ascii ascii, fold_lower_char]
  · rw [to_lower_high ascii]

theorem fold_lower_first (key : List Char) : foldChars (lowerFirst key) = foldChars key := by
  cases key with
  | nil => rfl
  | cons c rest =>
    rw [lowerFirst]
    by_cases capital : isUppercase c = true
    · rw [if_pos capital, fold_chars_append, fold_lower_char, ← fold_chars_cons]
    · rw [if_neg capital]

theorem fold_join_words (done key : List Char) : foldChars (joinWords done key) = foldChars done.reverse ++ foldChars key := by
  fun_induction joinWords done key with
  | case1 done => simp [foldChars]
  | case2 done c rest letter ih =>
    have same : foldChars [if done.isEmpty then c.toLower else c.toUpper] = foldChars [c] := by
      cases done with
      | nil => exact fold_to_lower c
      | cons d before => exact fold_to_upper c
    rw [ih, List.reverse_cons, fold_chars_append, same, List.append_assoc, ← fold_chars_cons, fold_chars_cons '_', fold_mark,
      List.nil_append]
  | case3 done c rest letter ih =>
    rw [ih, List.reverse_cons, fold_chars_append, List.append_assoc, ← fold_chars_cons]
  | case4 done c rest plain ih =>
    rw [ih, List.reverse_cons, fold_chars_append, List.append_assoc, ← fold_chars_cons]

theorem fold_canonical_chars (key : List Char) : foldChars (canonicalChars key) = foldChars key := by
  unfold canonicalChars
  by_cases joined : key.contains '_' = true
  · rw [if_pos joined, fold_join_words]
    rfl
  · rw [if_neg joined, fold_lower_first]

theorem fold_canonical (key : String) : fold (canonical key) = fold key := by
  unfold fold canonical
  rw [String.toList_ofList, fold_canonical_chars]

theorem fold_of_canonical_eq {key other : String} (same : canonical key = canonical other) : fold key = fold other := by
  rw [← fold_canonical key, same, fold_canonical]

theorem fold_snake_char (c : Char) : foldChars (snakeChar c) = foldChars [c] := by
  unfold snakeChar
  by_cases capital : isUppercase c = true
  · rw [if_pos capital, fold_chars_cons, fold_mark, List.nil_append, fold_lower_char]
  · rw [if_neg capital]

theorem fold_snake_chars (key : List Char) : foldChars (snakeChars key) = foldChars key := by
  have tail : ∀ rest : List Char, foldChars (rest.flatMap snakeChar) = foldChars rest := by
    intro rest
    induction rest with
    | nil => rfl
    | cons c rest ih => rw [List.flatMap_cons, fold_chars_append, ih, fold_snake_char, ← fold_chars_cons]
  cases key with
  | nil => rfl
  | cons c rest =>
    rw [snakeChars, fold_chars_append, tail, fold_chars_cons c]
    by_cases capital : isUppercase c = true
    · rw [if_pos capital, fold_lower_char]
    · rw [if_neg capital]

theorem fold_snake (key : String) : fold (snake key) = fold key := by
  unfold fold snake
  rw [String.toList_ofList, fold_snake_chars]

def IsAscii (key : String) : Prop := ∀ c ∈ key.toList, c.toNat < 128

instance (key : String) : Decidable (IsAscii key) := inferInstanceAs (Decidable (∀ c ∈ key.toList, c.toNat < 128))

theorem ascii_join_words {done key : List Char} (ascii : ∀ c ∈ done ++ key, c.toNat < 128) :
    ∀ c ∈ joinWords done key, c.toNat < 128 := by
  fun_induction joinWords done key with
  | case1 done => simpa using ascii
  | case2 done c rest letter ih =>
    refine ih fun d member => ?_
    have small : c.toNat < 128 := ascii c (by simp)
    rcases List.mem_append.mp member with read | left
    · rcases List.mem_cons.mp read with rfl | before
      · split
        · exact (ascii_lower_settled small).1
        · exact (ascii_upper small).1
      · exact ascii d (List.mem_append_left _ before)
    · exact ascii d (by simp [left])
  | case3 done c rest letter ih =>
    refine ih fun d member => ascii d ?_
    simp only [List.cons_append, List.mem_append, List.mem_cons] at member ⊢
    rcases member with mark | before | this | later
    · exact .inr (.inl mark)
    · exact .inl before
    · exact .inr (.inr (.inl this))
    · exact .inr (.inr (.inr later))
  | case4 done c rest plain ih =>
    refine ih fun d member => ascii d ?_
    simp only [List.cons_append, List.mem_append, List.mem_cons] at member ⊢
    rcases member with this | before | later
    · exact .inr (.inl this)
    · exact .inl before
    · exact .inr (.inr later)

theorem ascii_canonical_chars {key : List Char} (ascii : ∀ c ∈ key, c.toNat < 128) :
    ∀ c ∈ canonicalChars key, c.toNat < 128 := by
  unfold canonicalChars
  by_cases joined : key.contains '_' = true
  · rw [if_pos joined]
    exact ascii_join_words ascii
  · rw [if_neg joined]
    cases key with
    | nil => exact ascii
    | cons c rest =>
      have small : c.toNat < 128 := ascii c List.mem_cons_self
      rw [lowerFirst]
      by_cases capital : isUppercase c = true
      · rw [if_pos capital, lower_char_ascii small]
        intro d member
        rcases List.mem_cons.mp member with rfl | later
        · exact (ascii_lower_settled small).1
        · exact ascii d (List.mem_cons_of_mem c later)
      · rw [if_neg capital]
        exact ascii

-- Beyond ASCII a capital can be several letters: the sharp s becomes two.
theorem fold_upper_first {key : List Char} (ascii : ∀ c ∈ key, c.toNat < 128) :
    foldChars (upperFirst key) = foldChars key := by
  cases key with
  | nil => rfl
  | cons c rest =>
    have upper : upperChar c = [c.toUpper] := if_pos (ascii c List.mem_cons_self)
    rw [upperFirst, upper, fold_chars_append, fold_to_upper, ← fold_chars_cons]

theorem fold_pascal {key : String} (ascii : IsAscii key) : fold (pascal key) = fold key := by
  unfold fold pascal
  rw [String.toList_ofList, fold_upper_first (ascii_canonical_chars ascii), fold_canonical_chars]

theorem fold_apply (convention : NamingConvention) {key : String} (ascii : IsAscii key) :
    fold (convention.apply key) = fold key := by
  cases convention with
  | camel => rfl
  | snake => exact fold_snake key
  | pascal => exact fold_pascal ascii

end SnippetReview.Naming
