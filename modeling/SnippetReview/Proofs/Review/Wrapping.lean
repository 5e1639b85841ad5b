import SnippetReview.Proofs.Review.Scoring

/- The score of counts of any size. Its sum is taken in words of 64 bits. Where the points fall below the
   least word the sum wraps around, and a configuration with more errors than a word can charge for may score
   high. -/

set_option autoImplicit false

namespace SnippetReview

theorem kept_le_hundred (sum : Int) : kept sum ≤ 100 := by
  unfold kept
  omega

theorem kept_eq_zero_iff (sum : Int) : kept sum = 0 ↔ sum ≤ 0 := by
  unfold kept
  omega

namespace ScoreInputs

-- The points of the counts over unbounded integers.
def points (inputs : ScoreInputs) : Int :=
  SnippetReview.points inputs.errors.toNat inputs.warnings.toNat inputs.high.toNat inputs.medium.toNat
    (min inputs.bonuses.toNat bonusOptions.length : Nat)

-- Whether the points are a signed word, or come out no higher than zero when they are wrapped into one.
def Settled (inputs : ScoreInputs) : Prop :=
  -9223372036854775808 ≤ inputs.points ∨ inputs.points.bmod Int64.size ≤ 0

-- Counts of which none is better than another's: no fewer charges, and no more bonuses.
structure NoBetterThan (worse better : ScoreInputs) : Prop where
  errors : better.errors ≤ worse.errors
  warnings : better.warnings ≤ worse.warnings
  high : better.high ≤ worse.high
  medium : better.medium ≤ worse.medium
  bonuses : worse.bonuses ≤ better.bonuses

theorem points_bound (inputs : ScoreInputs) : inputs.points ≤ 115 := by
  have few := Nat.min_le_right inputs.bonuses.toNat bonusOptions.length
  have three : bonusOptions.length = 3 := rfl
  unfold points SnippetReview.points
  omega

theorem points_mono {worse better : ScoreInputs} (order : worse.NoBetterThan better) : worse.points ≤ better.points :=
  points_le (UInt64.le_iff_toNat_le.mp order.errors) (UInt64.le_iff_toNat_le.mp order.warnings)
    (UInt64.le_iff_toNat_le.mp order.high) (UInt64.le_iff_toNat_le.mp order.medium) (by
      have bonuses := UInt64.le_iff_toNat_le.mp order.bonuses
      omega)

theorem score_eq_wrapped (inputs : ScoreInputs) : inputs.score = kept (inputs.points.bmod Int64.size) := by
  have charged : inputs.penalty = Int64.ofInt (15 * inputs.errors.toNat + 5 * inputs.warnings.toNat +
      10 * inputs.high.toNat + 5 * inputs.medium.toNat) := by
    have same := penalty_of_counts inputs.errors.toNat inputs.warnings.toNat inputs.high.toNat inputs.medium.toNat 0
    unfold ofCounts at same
    simp only [UInt64.ofNat_toNat] at same
    exact same
  have sum : 100 - inputs.penalty + inputs.bonus = Int64.ofInt inputs.points := by
    have regroup : inputs.points = 100 - (15 * inputs.errors.toNat + 5 * inputs.warnings.toNat + 10 * inputs.high.toNat +
        5 * inputs.medium.toNat) + 5 * (min inputs.bonuses.toNat bonusOptions.length : Nat) := by
      unfold points SnippetReview.points
      omega
    rw [regroup, Int64.ofInt_add, Int64.ofInt_sub, charged, bonus_eq]
    rfl
  rw [score, sum, kept_of_word, Int64.toInt_ofInt]

theorem bmod_of_word {inputs : ScoreInputs} (fits : -9223372036854775808 ≤ inputs.points) :
    inputs.points.bmod Int64.size = inputs.points := by
  have high := points_bound inputs
  have size : Int64.size = 18446744073709551616 := rfl
  refine Int.bmod_eq_of_le ?_ ?_ <;> rw [size] <;> omega

theorem score_of_settled {inputs : ScoreInputs} (settled : inputs.Settled) : inputs.score = kept inputs.points := by
  rw [score_eq_wrapped]
  by_cases fits : -9223372036854775808 ≤ inputs.points
  · rw [bmod_of_word fits]
  · -- Both the points and what they wrap to count for nothing.
    have wrapped := settled.resolve_left fits
    rw [(kept_eq_zero_iff _).mpr wrapped, (kept_eq_zero_iff _).mpr (by omega)]

theorem score_of_unsettled {inputs : ScoreInputs} (unsettled : ¬ inputs.Settled) :
    kept inputs.points = 0 ∧ 0 < inputs.score := by
  obtain ⟨beyond, wrapped⟩ := not_or.mp unsettled
  have positive := mt (kept_eq_zero_iff _).mp wrapped
  rw [← score_eq_wrapped] at positive
  exact ⟨(kept_eq_zero_iff _).mpr (by omega), Nat.pos_of_ne_zero positive⟩

theorem kept_le_score (inputs : ScoreInputs) : kept inputs.points ≤ inputs.score := by
  by_cases settled : inputs.Settled
  · exact Nat.le_of_eq (score_of_settled settled).symm
  · rw [(score_of_unsettled settled).1]
    exact Nat.zero_le _

def capped (inputs : ScoreInputs) : ScoreInputs where
  errors := .ofNat (min inputs.errors.toNat 23)
  warnings := .ofNat (min inputs.warnings.toNat 23)
  high := .ofNat (min inputs.high.toNat 23)
  medium := .ofNat (min inputs.medium.toNat 23)
  bonuses := inputs.bonuses

theorem toNat_cap (word : UInt64) : (UInt64.ofNat (min word.toNat 23)).toNat = min word.toNat 23 := by
  refine UInt64.toNat_ofNat_of_lt' (Nat.lt_of_le_of_lt (Nat.min_le_right _ _) ?_)
  decide

theorem no_better_than_capped (inputs : ScoreInputs) : inputs.NoBetterThan inputs.capped := by
  have cap : ∀ word : UInt64, UInt64.ofNat (min word.toNat 23) ≤ word := by
    intro word
    rw [UInt64.le_iff_toNat_le, toNat_cap]
    exact Nat.min_le_left _ _
  exact ⟨cap _, cap _, cap _, cap _, UInt64.le_refl _⟩

-- Of a kind of charge that counts at all, 23 cost more than there is to lose.
theorem score_capped {inputs : ScoreInputs} (beyond : inputs.points < -9223372036854775808) : inputs.capped.score = 0 := by
  have low : inputs.capped.points ≤ 0 ∧ -9223372036854775808 ≤ inputs.capped.points := by
    unfold points capped SnippetReview.points at *
    simp only [toNat_cap]
    have three : bonusOptions.length = 3 := rfl
    omega
  rw [score_of_settled (.inl low.2)]
  exact (kept_eq_zero_iff _).mpr low.1

/-- A score is never above 100. It is that of the formula, and no better counts have a lower one, exactly where the
points are a word or wrap to one that is not positive. -/
theorem score_iff_settled (inputs : ScoreInputs) :
    inputs.score ≤ 100 ∧ (inputs.score = kept inputs.points ↔ inputs.Settled) ∧
      ((∀ better, inputs.NoBetterThan better → inputs.score ≤ better.score) ↔ inputs.Settled) := by
  refine ⟨?range, ⟨fun same => ?formula, score_of_settled⟩, fun monotone => ?least, fun settled better order => ?greater⟩
  case range =>
    rw [score_eq_wrapped]
    exact kept_le_hundred _
  case formula =>
    by_cases settled : inputs.Settled
    · exact settled
    · have unsettled := score_of_unsettled settled
      omega
  case least =>
    by_cases settled : inputs.Settled
    · exact settled
    · have unsettled := score_of_unsettled settled
      have beyond := (not_or.mp settled).1
      have capped := monotone inputs.capped (no_better_than_capped inputs)
      rw [score_capped (by omega)] at capped
      omega
  case greater =>
    calc inputs.score = kept inputs.points := score_of_settled settled
      _ ≤ kept better.points := kept_le (points_mono order)
      _ ≤ better.score := kept_le_score better

-- As many errors as a word can count are taken for one error less than none.
theorem score_iff_settled_wrapped :
    let most : ScoreInputs := { errors := 18446744073709551615 }
    let few : ScoreInputs := { errors := 10 }
    most.score = 100 ∧ kept most.points = 0 ∧ few.errors ≤ most.errors ∧ few.score = 0 := by
  decide

end ScoreInputs

end SnippetReview
