import Mathlib.Data.Set.Function
import SnippetReview.Proofs.Naming.Folding
import SnippetReview.Proofs.Text.Utf8

set_option autoImplicit false

namespace SnippetReview

open Text

-- A name in camel case: letters and digits after a small letter.
def isCamelKey : List Char → Bool
  | [] => false
  | c :: rest => c.isLower && rest.all Char.isAlphanum

theorem alphanum_of_lower {c : Char} (small : c.isLower = true) : c.isAlphanum = true := by
  unfold Char.isAlphanum Char.isAlpha
  rw [small, Bool.or_true, Bool.true_or]

namespace Naming

-- The words of a text joined behind a beginning, so that each of them gets a capital.
def joined : List Char → List Char
  | [] => []
  | '_' :: c :: rest => if isAlphabetic c then c.toUpper :: joined rest else '_' :: joined (c :: rest)
  | c :: rest => c :: joined rest

theorem join_words_behind {done : List Char} (begun : done ≠ []) (key : List Char) :
    joinWords done key = done.reverse ++ joined key := by
  induction key using joined.induct generalizing done with
  | case1 => rw [joinWords, joined, List.append_nil]
  | case2 c rest letter ih =>
    -- What was read before is not empty, so the letter becomes a capital.
    rw [joinWords, joined, if_pos letter, if_pos letter, List.isEmpty_eq_false_iff.mpr begun, ih (List.cons_ne_nil _ _)]
    simp
  | case3 c rest sign ih =>
    rw [joinWords, joined, if_neg sign, if_neg sign, ih (List.cons_ne_nil _ _)]
    simp
  | case4 c rest plain ih =>
    rw [joinWords.eq_3 _ _ _ plain, joined.eq_3 _ _ plain, ih (List.cons_ne_nil _ _)]
    simp

theorem joined_plain {c : Char} (noMark : c ≠ '_') (rest : List Char) : joined (c :: rest) = c :: joined rest :=
  joined.eq_3 c rest fun _ _ mark _ => noMark mark

theorem joined_unmarked {key : List Char} (unmarked : '_' ∉ key) : joined key = key := by
  induction key with
  | nil => rfl
  | cons c rest ih =>
    rw [List.mem_cons, not_or] at unmarked
    rw [joined_plain (Ne.symm unmarked.1), ih unmarked.2]

theorem canonical_behind_small {c : Char} (small : isUppercase c = false) (noMark : c ≠ '_') (rest : List Char) :
    canonicalChars (c :: rest) = c :: joined rest := by
  unfold canonicalChars
  by_cases marked : (c :: rest).contains '_' = true
  · rw [if_pos marked, joinWords.eq_3 _ _ _ fun _ _ mark _ => noMark mark, join_words_behind (List.cons_ne_nil _ _)]
    rfl
  · rw [if_neg marked, lowerFirst, small, if_neg Bool.false_ne_true, joined_unmarked]
    exact fun later => marked (List.contains_iff_mem.mpr (List.mem_cons_of_mem c later))

theorem of_alphanum {p : Char → Prop} (holds : ∀ n : Fin 128, (Char.ofNat n).isAlphanum = true → p (Char.ofNat n)) {c : Char}
    (alphanum : c.isAlphanum = true) : p c :=
  of_ascii (p := fun c => c.isAlphanum = true → p c) holds (ascii_of_alphanum alphanum) alphanum

theorem mark_free {c : Char} (alphanum : c.isAlphanum = true) : c ≠ '_' :=
  of_alphanum (p := (· ≠ '_')) (by decide) alphanum

theorem small_spec {c : Char} (small : c.isLower = true) :
    isUppercase c = false ∧ upperChar c = [c.toUpper] ∧ isUppercase c.toUpper = true ∧ c.toUpper ≠ '_' ∧
      lowerChar c.toUpper = [c] :=
  of_alphanum (p := fun c => c.isLower = true → isUppercase c = false ∧ upperChar c = [c.toUpper] ∧
    isUppercase c.toUpper = true ∧ c.toUpper ≠ '_' ∧ lowerChar c.toUpper = [c]) (by decide +kernel)
    (alphanum_of_lower small) small

theorem snake_char_read {c : Char} (alphanum : c.isAlphanum = true) (rest : List Char) :
    joined (snakeChar c ++ rest) = c :: joined rest := by
  by_cases capital : isUppercase c = true
  · have spec : snakeChar c = ['_', c.toLower] ∧ isAlphabetic c.toLower = true ∧ c.toLower.toUpper = c :=
      of_alphanum (p := fun c => isUppercase c = true →
        snakeChar c = ['_', c.toLower] ∧ isAlphabetic c.toLower = true ∧ c.toLower.toUpper = c) (by decide +kernel)
        alphanum capital
    obtain ⟨spelled, letter, again⟩ := spec
    rw [spelled]
    change joined ('_' :: c.toLower :: rest) = _
    rw [joined, if_pos letter, again]
  · rw [snakeChar, if_neg capital]
    exact joined_plain (mark_free alphanum) rest

theorem snake_chars_read {rest : List Char} (alphanum : ∀ c ∈ rest, c.isAlphanum = true) :
    joined (rest.flatMap snakeChar) = rest := by
  induction rest with
  | nil => rfl
  | cons c rest ih =>
    rw [List.flatMap_cons, snake_char_read (alphanum c List.mem_cons_self),
      ih fun d member => alphanum d (List.mem_cons_of_mem c member)]

section

variable {key : List Char}

theorem camel_key_cases (camel : isCamelKey key = true) :
    ∃ c rest, key = c :: rest ∧ c.isLower = true ∧ ∀ d ∈ rest, d.isAlphanum = true := by
  cases key with
  | nil => contradiction
  | cons c rest =>
    rw [isCamelKey, Bool.and_eq_true, List.all_eq_true] at camel
    exact ⟨c, rest, rfl, camel⟩

theorem unmarked_of_alphanum (alphanum : ∀ c ∈ key, c.isAlphanum = true) : '_' ∉ key :=
  fun member => mark_free (alphanum '_' member) rfl

theorem canonical_camel_chars (camel : isCamelKey key = true) : canonicalChars key = key := by
  obtain ⟨c, rest, rfl, small, alphanum⟩ := camel_key_cases camel
  rw [canonical_behind_small (small_spec small).1 (mark_free (alphanum_of_lower small)),
    joined_unmarked (unmarked_of_alphanum alphanum)]

theorem canonical_snake_chars (camel : isCamelKey key = true) : canonicalChars (snakeChars key) = key := by
  obtain ⟨c, rest, rfl, small, alphanum⟩ := camel_key_cases camel
  have begins := (small_spec small).1
  rw [snakeChars, begins, if_neg Bool.false_ne_true, List.singleton_append,
    canonical_behind_small begins (mark_free (alphanum_of_lower small)), snake_chars_read alphanum]

theorem canonical_pascal_chars (camel : isCamelKey key = true) : canonicalChars (upperFirst (canonicalChars key)) = key := by
  rw [canonical_camel_chars camel]
  obtain ⟨c, rest, rfl, small, alphanum⟩ := camel_key_cases camel
  obtain ⟨_, upper, capital, noMark, lower⟩ := small_spec small
  have unmarked : ¬ (c.toUpper :: rest).contains '_' = true := by
    rw [List.contains_iff_mem, List.mem_cons, not_or]
    exact ⟨noMark.symm, unmarked_of_alphanum alphanum⟩
  rw [upperFirst, upper, List.singleton_append, canonicalChars, if_neg unmarked, lowerFirst, if_pos capital, lower,
    List.singleton_append]

end

theorem canonical_apply (convention : NamingConvention) {key : String} (camel : isCamelKey key.toList = true) :
    canonical (convention.apply key) = key := by
  unfold canonical
  cases convention with
  | camel => rw [NamingConvention.apply, canonical_camel_chars camel, String.ofList_toList]
  | snake => rw [NamingConvention.apply, snake, String.toList_ofList, canonical_snake_chars camel, String.ofList_toList]
  | pascal => rw [NamingConvention.apply, pascal, String.toList_ofList, canonical_pascal_chars camel, String.ofList_toList]

theorem apply_injective (convention : NamingConvention) : Set.InjOn convention.apply {key | isCamelKey key.toList = true} := by
  intro key camel other camelOther same
  rw [← canonical_apply convention camel, same, canonical_apply convention camelOther]

/-- A key in camel case is read back from its spelling in each convention, and no two of them are spelled
alike in snake case or in Pascal case. -/
theorem conventions_read_back :
    (∀ (convention : NamingConvention) (key : String), isCamelKey key.toList = true →
      canonical (convention.apply key) = key) ∧
    Set.InjOn snake {key | isCamelKey key.toList = true} ∧ Set.InjOn pascal {key | isCamelKey key.toList = true} :=
  ⟨fun convention _ camel => canonical_apply convention camel, apply_injective .snake, apply_injective .pascal⟩

theorem conventions_read_back_acronym :
    isCamelKey "sendPII2Go".toList = true ∧ snake "sendPII2Go" = "send_p_i_i2_go" ∧
      canonical "send_p_i_i2_go" = "sendPII2Go" := by
  have camel : isCamelKey "sendPII2Go".toList = true := by decide
  have spelled : NamingConvention.snake.apply "sendPII2Go" = "send_p_i_i2_go" := by decide +kernel
  refine ⟨camel, spelled, ?_⟩
  rw [← spelled]
  exact conventions_read_back.1 .snake "sendPII2Go" camel

end Naming

end SnippetReview
