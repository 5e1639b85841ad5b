import SnippetReview.Proofs.Naming.Conventions

/- Whether the canonical form of a key is its own canonical form. It is not if a letter stands behind two
   underscores, of which the first one stays before a new capital, nor if all underscores go and leave a
   capital in front. -/

set_option autoImplicit false

namespace SnippetReview.Naming

open Text

section

variable {key rest : List Char} {c : Char}

def BeginsWord (key : List Char) : Prop := ∃ c rest, key = c :: rest ∧ isAlphabetic c = true

def HasJoint (key : List Char) : Prop := ∃ after, BeginsWord after ∧ '_' :: after <:+ key

-- Two underscores stand directly before a letter.
def HasDoubleJoint (key : List Char) : Prop := ∃ after, BeginsWord after ∧ '_' :: '_' :: after <:+ key

def OnlyJoints (key : List Char) : Prop := ∀ after, '_' :: after <:+ key → BeginsWord after

theorem begins_word_cons : BeginsWord (c :: rest) ↔ isAlphabetic c = true := by
  constructor
  · rintro ⟨d, tail, same, letter⟩
    cases same
    exact letter
  · exact fun letter => ⟨c, rest, rfl, letter⟩

theorem no_word_nil : ¬ BeginsWord [] := fun ⟨_, _, same, _⟩ => nomatch same

theorem has_joint_cons : HasJoint (c :: rest) ↔ (c = '_' ∧ BeginsWord rest) ∨ HasJoint rest := by
  unfold HasJoint
  simp only [List.suffix_cons_iff, List.cons.injEq]
  constructor
  · rintro ⟨after, word, ⟨rfl, rfl⟩ | later⟩
    · exact .inl ⟨rfl, word⟩
    · exact .inr ⟨after, word, later⟩
  · rintro (⟨rfl, word⟩ | ⟨after, word, later⟩)
    · exact ⟨rest, word, .inl ⟨rfl, rfl⟩⟩
    · exact ⟨after, word, .inr later⟩

theorem has_double_joint_cons :
    HasDoubleJoint (c :: rest) ↔ (c = '_' ∧ ∃ after, rest = '_' :: after ∧ BeginsWord after) ∨ HasDoubleJoint rest := by
  unfold HasDoubleJoint
  simp only [List.suffix_cons_iff, List.cons.injEq]
  constructor
  · rintro ⟨after, word, ⟨rfl, same⟩ | later⟩
    · exact .inl ⟨rfl, after, same.symm, word⟩
    · exact .inr ⟨after, word, later⟩
  · rintro (⟨rfl, after, rfl, word⟩ | ⟨after, word, later⟩)
    · exact ⟨after, word, .inl ⟨rfl, rfl⟩⟩
    · exact ⟨after, word, .inr later⟩

theorem only_joints_cons : OnlyJoints (c :: rest) ↔ (c = '_' → BeginsWord rest) ∧ OnlyJoints rest := by
  unfold OnlyJoints
  simp only [List.suffix_cons_iff, List.cons.injEq]
  constructor
  · exact fun joints => ⟨fun mark => joints rest (.inl ⟨mark.symm, rfl⟩), fun after later => joints after (.inr later)⟩
  · rintro ⟨first, joints⟩ after (⟨rfl, rfl⟩ | later)
    · exact first rfl
    · exact joints after later

theorem no_joint_nil : ¬ HasJoint [] := fun ⟨_, _, last⟩ => nomatch List.suffix_nil.mp last

theorem no_double_joint_nil : ¬ HasDoubleJoint [] := fun ⟨_, _, last⟩ => nomatch List.suffix_nil.mp last

theorem only_joints_nil : OnlyJoints [] := fun _ last => nomatch List.suffix_nil.mp last

theorem mark_mem_of_joint (joint : HasJoint key) : '_' ∈ key := by
  obtain ⟨after, _, last⟩ := joint
  exact last.subset List.mem_cons_self

theorem mark_mem_of_double_joint (joint : HasDoubleJoint key) : '_' ∈ key := by
  obtain ⟨after, _, last⟩ := joint
  exact last.subset List.mem_cons_self

theorem ne_mark_of_letter (letter : isAlphabetic c = true) : c ≠ '_' := by
  rintro rfl
  exact absurd letter (by decide)

theorem letter_recased (letter : isAlphabetic c = true) : isAlphabetic c.toUpper = true ∧ isAlphabetic c.toLower = true := by
  by_cases ascii : c.toNat < 128
  · exact of_ascii (p := fun c => isAlphabetic c = true → isAlphabetic c.toUpper = true ∧ isAlphabetic c.toLower = true)
      (by decide +kernel) ascii letter
  · rw [to_upper_high ascii, to_lower_high ascii]
    exact ⟨letter, letter⟩

theorem has_joint_plain (noMark : c ≠ '_') : HasJoint (c :: rest) ↔ HasJoint rest := by
  rw [has_joint_cons]
  exact or_iff_right fun first => noMark first.1

theorem has_double_joint_plain (noMark : c ≠ '_') : HasDoubleJoint (c :: rest) ↔ HasDoubleJoint rest := by
  rw [has_double_joint_cons]
  exact or_iff_right fun first => noMark first.1

theorem only_joints_plain (noMark : c ≠ '_') : OnlyJoints (c :: rest) ↔ OnlyJoints rest := by
  rw [only_joints_cons]
  exact and_iff_right fun mark => absurd mark noMark

theorem has_double_joint_joint (letter : isAlphabetic c = true) :
    HasDoubleJoint ('_' :: c :: rest) ↔ HasDoubleJoint rest := by
  rw [has_double_joint_cons, has_double_joint_plain (ne_mark_of_letter letter)]
  refine or_iff_right fun ⟨_, after, same, _⟩ => ?_
  exact ne_mark_of_letter letter (List.cons.inj same).1

theorem only_joints_joint (letter : isAlphabetic c = true) : OnlyJoints ('_' :: c :: rest) ↔ OnlyJoints rest := by
  rw [only_joints_cons, only_joints_plain (ne_mark_of_letter letter)]
  exact and_iff_right fun _ => begins_word_cons.mpr letter

theorem joined_joint (letter : isAlphabetic c = true) (rest : List Char) :
    joined ('_' :: c :: rest) = c.toUpper :: joined rest := by
  rw [joined, if_pos letter]

theorem joined_mark (wordless : ¬ BeginsWord rest) : joined ('_' :: rest) = '_' :: joined rest := by
  cases rest with
  | nil => rfl
  | cons c rest => rw [joined, if_neg fun letter => wordless (begins_word_cons.mpr letter)]

-- A text is empty, or begins with a joint, with an underscore that stays, or with another character.
theorem joint_induction {motive : List Char → Prop} (nil : motive [])
    (joint : ∀ c rest, isAlphabetic c = true → motive rest → motive ('_' :: c :: rest))
    (mark : ∀ rest, ¬ BeginsWord rest → motive rest → motive ('_' :: rest))
    (plain : ∀ c rest, c ≠ '_' → motive rest → motive (c :: rest)) (key : List Char) : motive key := by
  induction key using joined.induct with
  | case1 => exact nil
  | case2 c rest letter ih => exact joint c rest letter ih
  | case3 c rest sign ih => exact mark (c :: rest) (fun word => sign (begins_word_cons.mp word)) ih
  | case4 c rest single ih =>
    by_cases isMark : c = '_'
    · cases rest with
      | nil => exact isMark ▸ mark [] no_word_nil ih
      | cons d rest => exact (single d rest isMark rfl).elim
    · exact plain c rest isMark ih

theorem begins_word_joined (key : List Char) :
    BeginsWord (joined key) ↔ BeginsWord key ∨ ∃ after, key = '_' :: after ∧ BeginsWord after := by
  induction key using joint_induction with
  | nil => exact ⟨.inl, fun word => word.elim id fun ⟨_, same, _⟩ => nomatch same⟩
  | joint c rest letter _ =>
    rw [joined_joint letter, begins_word_cons]
    exact iff_of_true (letter_recased letter).1 (.inr ⟨_, rfl, begins_word_cons.mpr letter⟩)
  | mark rest wordless _ =>
    have mark : ¬ isAlphabetic '_' = true := by decide
    rw [joined_mark wordless, begins_word_cons, begins_word_cons]
    refine iff_of_false mark ?_
    rintro (letter | ⟨_, same, word⟩)
    · exact mark letter
    · exact wordless ((List.cons.inj same).2 ▸ word)
  | plain c rest noMark _ =>
    rw [joined_plain noMark, begins_word_cons, begins_word_cons]
    exact (or_iff_left fun ⟨_, same, _⟩ => noMark (List.cons.inj same).1).symm

theorem has_joint_joined (key : List Char) : HasJoint (joined key) ↔ HasDoubleJoint key := by
  induction key using joint_induction with
  | nil => exact iff_of_false no_joint_nil no_double_joint_nil
  | joint c rest letter ih =>
    rw [joined_joint letter, has_joint_plain (ne_mark_of_letter (letter_recased letter).1), ih, has_double_joint_joint letter]
  | mark rest wordless ih =>
    -- The underscore stays. A letter comes to stand behind it if the next underscore is taken out.
    rw [joined_mark wordless, has_joint_cons, has_double_joint_cons, ih, begins_word_joined, or_iff_right wordless]
  | plain c rest noMark ih =>
    rw [joined_plain noMark, has_joint_plain noMark, ih, has_double_joint_plain noMark]

theorem mark_mem_joined (key : List Char) : '_' ∈ joined key ↔ ¬ OnlyJoints key := by
  induction key using joint_induction with
  | nil => exact iff_of_false List.not_mem_nil (not_not_intro only_joints_nil)
  | joint c rest letter ih =>
    rw [joined_joint letter, List.mem_cons, ih, only_joints_joint letter]
    exact or_iff_right fun mark => ne_mark_of_letter (letter_recased letter).1 mark.symm
  | mark rest wordless _ =>
    rw [joined_mark wordless, only_joints_cons]
    exact iff_of_true List.mem_cons_self fun joints => wordless (joints.1 rfl)
  | plain c rest noMark ih =>
    rw [joined_plain noMark, List.mem_cons, ih, only_joints_plain noMark]
    exact or_iff_right fun mark => noMark mark.symm

theorem joined_settled_iff (key : List Char) : joined key = key ↔ ¬ HasJoint key := by
  induction key using joint_induction with
  | nil => exact iff_of_true rfl no_joint_nil
  | joint c rest letter _ =>
    rw [joined_joint letter, has_joint_cons]
    refine iff_of_false (fun same => ?_) fun apart => apart (.inl ⟨rfl, begins_word_cons.mpr letter⟩)
    exact ne_mark_of_letter (letter_recased letter).1 (List.cons.inj same).1
  | mark rest wordless ih =>
    rw [joined_mark wordless, has_joint_cons, List.cons_inj_right, ih]
    exact not_congr (or_iff_right fun first => wordless first.2).symm
  | plain c rest noMark ih =>
    rw [joined_plain noMark, has_joint_plain noMark, List.cons_inj_right, ih]

theorem join_words_cases (key : List Char) :
    (∃ c rest, key = '_' :: c :: rest ∧ isAlphabetic c = true ∧ joinWords [] key = c.toLower :: joined rest) ∨
      ((∀ after, key = '_' :: after → ¬ BeginsWord after) ∧ joinWords [] key = joined key) := by
  induction key using joint_induction with
  | nil => exact .inr ⟨fun _ same => (nomatch same), rfl⟩
  | joint c rest letter _ =>
    refine .inl ⟨c, rest, rfl, letter, ?_⟩
    rw [joinWords, if_pos letter, join_words_behind (List.cons_ne_nil _ _)]
    rfl
  | mark rest wordless _ =>
    refine .inr ⟨fun after same => (List.cons.inj same).2 ▸ wordless, ?_⟩
    rw [joined_mark wordless]
    cases rest with
    | nil => rfl
    | cons c rest =>
      rw [joinWords, if_neg fun letter => wordless (begins_word_cons.mpr letter), join_words_behind (List.cons_ne_nil _ _)]
      rfl
  | plain c rest noMark _ =>
    refine .inr ⟨fun _ same => absurd (List.cons.inj same).1 noMark, ?_⟩
    rw [joined_plain noMark, joinWords.eq_3 _ _ _ fun _ _ mark _ => noMark mark, join_words_behind (List.cons_ne_nil _ _)]
    rfl

theorem has_joint_join_words (key : List Char) : HasJoint (joinWords [] key) ↔ HasDoubleJoint key := by
  rcases join_words_cases key with ⟨c, rest, rfl, letter, spelled⟩ | ⟨_, spelled⟩
  · rw [spelled, has_joint_plain (ne_mark_of_letter (letter_recased letter).2), has_joint_joined, has_double_joint_joint letter]
  · rw [spelled, has_joint_joined]

theorem mark_mem_join_words (key : List Char) : '_' ∈ joinWords [] key ↔ ¬ OnlyJoints key := by
  rcases join_words_cases key with ⟨c, rest, rfl, letter, spelled⟩ | ⟨_, spelled⟩
  · rw [spelled, List.mem_cons, mark_mem_joined, only_joints_joint letter]
    exact or_iff_right fun mark => ne_mark_of_letter (letter_recased letter).2 mark.symm
  · rw [spelled, mark_mem_joined]

theorem join_words_settled_iff (key : List Char) : joinWords [] key = key ↔ ¬ HasJoint key := by
  rcases join_words_cases key with ⟨c, rest, rfl, letter, spelled⟩ | ⟨_, spelled⟩
  · rw [spelled, has_joint_cons]
    refine iff_of_false (fun same => ?_) fun apart => apart (.inl ⟨rfl, begins_word_cons.mpr letter⟩)
    exact ne_mark_of_letter (letter_recased letter).2 (List.cons.inj same).1
  · rw [spelled, joined_settled_iff]

def leading : List Char → Option Char
  | '_' :: c :: _ => some (if isAlphabetic c then c.toLower else '_')
  | c :: _ => some c
  | [] => none

theorem head_join_words (key : List Char) : (joinWords [] key).head? = leading key := by
  induction key using joint_induction with
  | nil => rfl
  | joint c rest letter _ =>
    rw [joinWords, leading, if_pos letter, if_pos letter, join_words_behind (List.cons_ne_nil _ _)]
    rfl
  | mark rest wordless _ =>
    cases rest with
    | nil => rfl
    | cons c rest =>
      have sign : ¬ isAlphabetic c = true := fun letter => wordless (begins_word_cons.mpr letter)
      rw [joinWords, leading, if_neg sign, if_neg sign, join_words_behind (List.cons_ne_nil _ _)]
      rfl
  | plain c rest noMark _ =>
    rw [joinWords.eq_3 _ _ _ fun _ _ mark _ => noMark mark, leading.eq_2 _ _ fun _ _ mark _ => noMark mark,
      join_words_behind (List.cons_ne_nil _ _)]
    rfl

def IsCapital (c : Char) : Prop := isUppercase c = true ∧ lowerChar c ≠ [c]

theorem lower_first_settled_iff (key : List Char) : lowerFirst key = key ↔ ∀ c ∈ key.head?, ¬ IsCapital c := by
  cases key with
  | nil => exact iff_of_true rfl fun _ none => nomatch none
  | cons c rest =>
    simp only [List.head?_cons, Option.mem_some_iff, forall_eq']
    rw [lowerFirst, IsCapital]
    by_cases capital : isUppercase c = true
    · rw [if_pos capital, and_iff_right capital, not_not]
      change lowerChar c ++ rest = [c] ++ rest ↔ _
      exact List.append_left_inj rest
    · rw [if_neg capital]
      exact iff_of_true rfl fun both => capital both.1

theorem lower_char_ne_nil (c : Char) : lowerChar c ≠ [] := by
  unfold lowerChar
  split
  · exact List.cons_ne_nil _ _
  · split <;> exact List.cons_ne_nil _ _

theorem lower_first_twice (key : List Char) : lowerFirst (lowerFirst key) = lowerFirst key := by
  cases key with
  | nil => rfl
  | cons c rest =>
    rw [lower_first_settled_iff, lowerFirst]
    by_cases capital : isUppercase c = true
    · obtain ⟨d, more, spelled⟩ := List.exists_cons_of_ne_nil (lower_char_ne_nil c)
      have settled : lowerChar d = [d] := (lower_settled (spelled ▸ List.mem_cons_self)).1
      rw [if_pos capital, spelled]
      rintro _ ⟨⟩ both
      exact both.2 settled
    · rw [if_neg capital]
      rintro _ ⟨⟩ both
      exact capital both.1

theorem unmarked_lower_first (unmarked : '_' ∉ key) : '_' ∉ lowerFirst key := by
  cases key with
  | nil => exact unmarked
  | cons c rest =>
    rw [List.mem_cons, not_or] at unmarked
    rw [lowerFirst]
    split
    · rw [List.mem_append, not_or]
      exact ⟨fun member => unmarked.1 (mark_mem_lower member).symm, unmarked.2⟩
    · rw [List.mem_cons, not_or]
      exact unmarked

theorem canonical_chars_marked (marked : '_' ∈ key) : canonicalChars key = joinWords [] key :=
  if_pos (List.contains_iff_mem.mpr marked)

theorem canonical_chars_unmarked (unmarked : '_' ∉ key) : canonicalChars key = lowerFirst key :=
  if_neg fun marked => unmarked (List.contains_iff_mem.mp marked)

-- Joining takes out all underscores of a key that has some, and leaves a capital in front.
structure LeavesCapital (key : List Char) : Prop where
  marked : '_' ∈ key
  joints : OnlyJoints key
  capital : ∃ c ∈ leading key, IsCapital c

theorem canonical_chars_settled_iff (key : List Char) :
    canonicalChars (canonicalChars key) = canonicalChars key ↔ ¬ HasDoubleJoint key ∧ ¬ LeavesCapital key := by
  by_cases marked : '_' ∈ key
  · rw [canonical_chars_marked marked]
    by_cases left : '_' ∈ joinWords [] key
    · -- Words are joined once more, and no capital in front is looked at.
      have capital : ¬ LeavesCapital key := fun leaves => (mark_mem_join_words key).mp left leaves.joints
      rw [canonical_chars_marked left, join_words_settled_iff, has_joint_join_words, and_iff_left capital]
    · -- No underscore is left, and the first letter is all that is looked at.
      have joints : OnlyJoints key := not_not.mp fun others => left ((mark_mem_join_words key).mpr others)
      have single : ¬ HasDoubleJoint key := fun double => left (mark_mem_of_joint ((has_joint_join_words key).mpr double))
      rw [canonical_chars_unmarked left, lower_first_settled_iff, head_join_words, and_iff_right single]
      constructor
      · rintro small ⟨_, _, c, first, capital⟩
        exact small c first capital
      · exact fun small c first capital => small ⟨marked, joints, c, first, capital⟩
  · rw [canonical_chars_unmarked marked, canonical_chars_unmarked (unmarked_lower_first marked)]
    exact iff_of_true (lower_first_twice key)
      ⟨fun double => marked (mark_mem_of_double_joint double), fun leaves => marked leaves.marked⟩

end

/-- The canonical form of a key is its own canonical form if and only if no letter stands behind two
underscores and joining the words does not leave a capital in front. -/
theorem canonical_settled_iff (key : String) :
    canonical (canonical key) = canonical key ↔ ¬ HasDoubleJoint key.toList ∧ ¬ LeavesCapital key.toList := by
  unfold canonical
  rw [String.toList_ofList, String.ofList_inj, canonical_chars_settled_iff]

-- A key with underscores keeps its capital, which goes when the underscores are gone.
theorem canonical_settled_capital :
    canonical "Sample_Rate" = "SampleRate" ∧ canonical "SampleRate" = "sampleRate" ∧
      ¬ canonical (canonical "Sample_Rate") = canonical "Sample_Rate" := by
  decide +kernel

end SnippetReview.Naming
