import Mathlib.Algebra.GroupWithZero.Nat
import SnippetReview.Proofs.Review.Presence

set_option autoImplicit false

namespace SnippetReview

-- The points of a configuration before they are kept between 0 and 100.
def points (errors warnings high medium bonuses : Int) : Int :=
  100 - 15 * errors - 5 * warnings - 10 * high - 5 * medium + 5 * bonuses

def kept (points : Int) : Nat := (max 0 (min 100 points)).toNat

theorem points_le {errors warnings high medium bonuses errors' warnings' high' medium' bonuses' : Nat}
    (fewerErrors : errors' ≤ errors) (fewerWarnings : warnings' ≤ warnings) (fewerHigh : high' ≤ high)
    (fewerMedium : medium' ≤ medium) (moreBonuses : bonuses ≤ bonuses') :
    points errors warnings high medium bonuses ≤ points errors' warnings' high' medium' bonuses' := by
  unfold points
  omega

theorem kept_le {points points' : Int} (le : points ≤ points') : kept points ≤ kept points' := by
  unfold kept
  omega

theorem summarize_eq (errors warnings score : Nat) : summarize errors warnings score =
    (if errors = 0 ∧ warnings = 0 then "Configuration looks good with no errors or warnings"
      else if errors = 0 then "Configuration has " ++ counted warnings "warning" ++ " to review"
      else "Configuration has " ++ counted errors "error" ++ " and " ++ counted warnings "warning") ++
      (" (score " ++ toString score ++ "/100).") := by
  unfold summarize
  by_cases clean : errors = 0 ∧ warnings = 0
  · rw [if_pos clean, if_pos clean]
    rfl
  · rw [if_neg clean, if_neg clean]
    by_cases mild : errors = 0
    · rw [if_pos mild, if_pos mild]
      rfl
    · rw [if_neg mild, if_neg mild]
      rfl

namespace ScoreInputs

def ofCounts (errors warnings high medium bonuses : Nat) : ScoreInputs :=
  ⟨.ofNat errors, .ofNat warnings, .ofNat high, .ofNat medium, .ofNat bonuses⟩

theorem penalty_of_counts (errors warnings high medium bonuses : Nat) :
    (ofCounts errors warnings high medium bonuses).penalty =
      Int64.ofInt (15 * errors + 5 * warnings + 10 * high + 5 * medium) := by
  unfold penalty ofCounts
  simp only [UInt64.toInt64_ofNat', ← Int64.ofInt_eq_ofNat, Int64.ofInt_add, Int64.ofInt_mul]
  rfl

theorem bonus_eq (inputs : ScoreInputs) :
    inputs.bonus = Int64.ofInt (5 * (min inputs.bonuses.toNat bonusOptions.length : Nat)) := by
  have three : (UInt64.ofNat bonusOptions.length).toNat = bonusOptions.length := rfl
  have least : min inputs.bonuses (UInt64.ofNat bonusOptions.length) =
      UInt64.ofNat (min inputs.bonuses.toNat bonusOptions.length) := by
    change (if inputs.bonuses ≤ UInt64.ofNat bonusOptions.length then inputs.bonuses else UInt64.ofNat bonusOptions.length) = _
    by_cases few : inputs.bonuses ≤ UInt64.ofNat bonusOptions.length
    · rw [if_pos few]
      rw [UInt64.le_iff_toNat_le, three] at few
      rw [Nat.min_eq_left few, UInt64.ofNat_toNat]
    · rw [if_neg few]
      rw [UInt64.le_iff_toNat_le, three] at few
      rw [Nat.min_eq_right (by omega)]
  rw [bonus, least, UInt64.toInt64_ofNat', ← Int64.ofInt_eq_ofNat, Int64.ofInt_mul]
  rfl

theorem bonus_of_counts (errors warnings high medium : Nat) {bonuses : Nat} (few : bonuses ≤ bonusOptions.length) :
    (ofCounts errors warnings high medium bonuses).bonus = Int64.ofInt (5 * bonuses) := by
  have three : bonusOptions.length = 3 := rfl
  have fits : (UInt64.ofNat bonuses).toNat = bonuses := UInt64.toNat_ofNat_of_lt' (by
    rw [three] at few
    exact Nat.lt_of_le_of_lt few (by decide))
  rw [bonus_eq, ofCounts, fits, Nat.min_eq_left few]

-- The greater and the lesser of two words are those of the numbers that they stand for.
theorem kept_of_word (word : Int64) : (max 0 (min 100 word)).toInt.toNat = kept word.toInt := by
  have hundred : (100 : Int64).toInt = 100 := rfl
  have zero : (0 : Int64).toInt = 0 := rfl
  have least : (min 100 word).toInt = min 100 word.toInt := by
    change (if (100 : Int64) ≤ word then (100 : Int64) else word).toInt = _
    by_cases above : (100 : Int64) ≤ word
    · rw [if_pos above]
      rw [Int64.le_iff_toInt_le, hundred] at above
      rw [hundred, Int.min_eq_left above]
    · rw [if_neg above]
      rw [Int64.le_iff_toInt_le, hundred] at above
      rw [Int.min_eq_right (by omega)]
  have most : (max 0 (min 100 word)).toInt = max 0 (min 100 word.toInt) := by
    change (if (0 : Int64) ≤ min 100 word then min 100 word else (0 : Int64)).toInt = _
    by_cases positive : (0 : Int64) ≤ min 100 word
    · rw [if_pos positive, least]
      rw [Int64.le_iff_toInt_le, least, zero] at positive
      exact (Int.max_eq_right positive).symm
    · rw [if_neg positive, zero]
      rw [Int64.le_iff_toInt_le, least, zero] at positive
      exact (Int.max_eq_left (by omega)).symm
  rw [most, kept]

theorem score_of_counts {errors warnings high medium bonuses : Nat} (few : bonuses ≤ bonusOptions.length)
    (small : 15 * errors + 5 * warnings + 10 * high + 5 * medium < 9223372036854775000) :
    (ofCounts errors warnings high medium bonuses).score = kept (points errors warnings high medium bonuses) := by
  have three : bonusOptions.length = 3 := rfl
  have sum : 100 - (ofCounts errors warnings high medium bonuses).penalty + (ofCounts errors warnings high medium bonuses).bonus =
      Int64.ofInt (points errors warnings high medium bonuses) := by
    have regroup : points errors warnings high medium bonuses =
        100 - (15 * errors + 5 * warnings + 10 * high + 5 * medium) + 5 * bonuses := by
      unfold points
      omega
    rw [regroup, Int64.ofInt_add, Int64.ofInt_sub, penalty_of_counts, bonus_of_counts _ _ _ _ few]
    rfl
  have word : (Int64.ofInt (points errors warnings high medium bonuses)).toInt = points errors warnings high medium bonuses := by
    refine Int64.toInt_ofInt_of_le ?_ ?_ <;> unfold points <;> omega
  rw [score, sum, kept_of_word, word]

end ScoreInputs

namespace ReviewPolicy

-- Each option that earns a bonus is recommended by one item, which nothing else satisfies.
theorem bonus_items :
    ((checklist.filter fun item => item.option = "environment" ∨ item.option = "release" ∨ item.option = "beforeSend").map
      (·.satisfiedBy)) = bonusOptions.map fun key => [key] := by
  decide

-- A bonus option is either set or recommended.
theorem bonuses_and_recommended (r : ReviewPolicy) (target : Host) (settings : Settings) :
    (bonusOptions.filter (r.isPresent settings)).length +
      ((r.recommendations target settings).countP fun advice =>
        advice.option = "environment" ∨ advice.option = "release" ∨ advice.option = "beforeSend") = 3 := by
  let unmet (keys : List String) : Bool := !keys.any (r.isPresent settings)
  let earns (item : ChecklistItem) : Bool :=
    item.option = "environment" ∨ item.option = "release" ∨ item.option = "beforeSend"
  have recommended : ((r.recommendations target settings).countP fun advice =>
      advice.option = "environment" ∨ advice.option = "release" ∨ advice.option = "beforeSend") =
        bonusOptions.countP fun key => !r.isPresent settings key := by
    calc ((checklist.filter fun item => unmet item.satisfiedBy).map fun item => item.recommend (r.renderHost target)).countP _
      _ = checklist.countP fun item => earns item && unmet item.satisfiedBy := by
          rw [List.countP_map, List.countP_filter]
          rfl
      _ = ((checklist.filter earns).map (·.satisfiedBy)).countP unmet := by
          rw [List.countP_map, List.countP_filter]
          exact List.countP_congr fun item _ => by simp [Bool.and_comm]
      _ = (bonusOptions.map fun key => [key]).countP unmet := congrArg _ bonus_items
      _ = bonusOptions.countP fun key => !r.isPresent settings key := by
          rw [List.countP_map]
          exact List.countP_congr fun key _ => by simp [unmet]
  have three : bonusOptions.length = 3 := rfl
  have total := List.length_eq_countP_add_countP (r.isPresent settings) (l := bonusOptions)
  rw [recommended, ← List.countP_eq_length_filter, ← three]
  simpa using total.symm

theorem count_severities_le (review : Review) : review.count .error + review.count .warning ≤ review.findings.length := by
  unfold Review.count
  generalize review.findings = findings
  induction findings with
  | nil => exact Nat.le_refl _
  | cons f rest ih => cases severity : f.severity <;> simp [severity] <;> omega

theorem count_by_parts (review : Review) (severity : Severity) : review.count severity =
    (review.options.map fun option => option.findings.countP fun f => f.severity = severity).sum +
      (review.missingRequired.countP fun f => f.severity = severity) +
      review.notes.countP fun f => f.severity = severity := by
  rw [Review.count, Review.findings, ← List.countP_eq_length_filter, List.countP_append, List.countP_append,
    List.countP_flatMap]
  rfl

theorem count_priority_eq (review : Review) (priority : Priority) : review.countPriority priority =
    review.recommendations.countP fun advice => advice.priority = priority := by
  rw [Review.countPriority, ← List.countP_eq_length_filter]
  rfl

theorem length_findings (review : Review) : review.findings.length =
    (review.options.map fun option => option.findings.length).sum + review.missingRequired.length +
      review.notes.length := by
  rw [Review.findings, List.length_append, List.length_append, List.length_flatMap]

theorem count_priority_le (r : ReviewPolicy) {e : Extraction} (valid : e.valid = true) (target : Host) (priority : Priority) :
    (r.review e target).countPriority priority ≤ 5 := by
  unfold Review.countPriority
  rw [(review_parts r valid target).2.2]
  refine Nat.le_trans (List.length_filter_le _ _) ?_
  unfold recommendations
  rw [List.length_map]
  exact List.length_filter_le _ _

theorem review_score (r : ReviewPolicy) {e : Extraction} (valid : e.valid = true) (target : Host) :
    let review := r.review e target
    let score := (ScoreInputs.ofCounts (review.count .error) (review.count .warning) (review.countPriority .high)
      (review.countPriority .medium) (bonusOptions.filter (r.isPresent e.settings)).length).score
    review.score = some score ∧ review.summary = summarize (review.count .error) (review.count .warning) score := by
  unfold review
  rw [valid]
  exact ⟨rfl, rfl⟩

theorem score_of_few (r : ReviewPolicy) {e : Extraction} (valid : e.valid = true) (target : Host)
    (few : (r.review e target).count .error + (r.review e target).count .warning < 288230376151711744) :
    (r.review e target).score = some (kept (points ((r.review e target).count .error)
      ((r.review e target).count .warning) ((r.review e target).countPriority .high)
      ((r.review e target).countPriority .medium) (bonusOptions.filter (r.isPresent e.settings)).length)) := by
  have high := count_priority_le r valid target .high
  have medium := count_priority_le r valid target .medium
  rw [(review_score r valid target).1, ScoreInputs.score_of_counts (List.length_filter_le _ _) (by omega)]

theorem review_of_invalid (r : ReviewPolicy) {e : Extraction} (invalid : e.valid = false) (target : Host) :
    r.review e target = rejected e target := by
  unfold review
  rw [invalid]
  rfl

/-- The score can be computed from a report alone: from the errors and warnings among its findings, its
recommendations of high and of medium priority, and those of bonus options. The summary states the same numbers.
An invalid extraction has no score, and its report only repeats the errors. -/
theorem score_from_report (r : ReviewPolicy) (e : Extraction) (target : Host) :
    let report := r.review e target
    let found := (report.options.map fun option => option.findings.length).sum + report.missingRequired.length +
      report.notes.length
    let reported (severity : Severity) : Nat :=
      (report.options.map fun option => option.findings.countP fun f => f.severity = severity).sum +
        (report.missingRequired.countP fun f => f.severity = severity) +
        report.notes.countP fun f => f.severity = severity
    let advised (priority : Priority) : Nat := report.recommendations.countP fun advice => advice.priority = priority
    let recommended := report.recommendations.countP fun advice =>
      advice.option = "environment" ∨ advice.option = "release" ∨ advice.option = "beforeSend"
    let errors := reported .error
    let warnings := reported .warning
    let score := kept (points errors warnings (advised .high) (advised .medium) (3 - recommended))
    let told (count : Nat) (noun : String) : String :=
      if count = 1 then "1 " ++ noun else toString count ++ " " ++ noun ++ "s"
    (e.valid = true → found < 288230376151711744 →
      report.score = some score ∧
      report.summary =
        (if errors = 0 ∧ warnings = 0 then "Configuration looks good with no errors or warnings"
          else if errors = 0 then "Configuration has " ++ told warnings "warning" ++ " to review"
          else "Configuration has " ++ told errors "error" ++ " and " ++ told warnings "warning") ++
          (" (score " ++ toString score ++ "/100).")) ∧
    (e.valid = false → report.score = none ∧ report.options = [] ∧ report.missingRequired = [] ∧
      report.recommendations = [] ∧ report.errors = e.errors) := by
  intro report found reported advised recommended errors warnings score told
  constructor
  · intro valid few
    obtain ⟨scored, summarized⟩ := review_score r valid target
    have errorCount : report.count .error = errors := count_by_parts report .error
    have warningCount : report.count .warning = warnings := count_by_parts report .warning
    have high : report.countPriority .high = advised .high := count_priority_eq report .high
    have medium : report.countPriority .medium = advised .medium := count_priority_eq report .medium
    have small : report.count .error + report.count .warning < 288230376151711744 :=
      Nat.lt_of_le_of_lt (count_severities_le report) (length_findings report ▸ few)
    have bonuses := bonuses_and_recommended r target e.settings
    rw [← (review_parts r valid target).2.2] at bonuses
    change _ + recommended = 3 at bonuses
    have unset : ((bonusOptions.filter (r.isPresent e.settings)).length : Int) = 3 - recommended := by omega
    have computed := score_of_few r valid target small
    rw [errorCount, warningCount, high, medium, unset] at computed
    have same := Option.some.inj (scored.symm.trans computed)
    refine ⟨computed, ?_⟩
    rw [summarized, same, errorCount, warningCount, summarize_eq]
    rfl
  · intro invalid
    have rejects : report = rejected e target := review_of_invalid r invalid target
    rw [rejects]
    exact ⟨rfl, rfl, rfl, rfl, rfl⟩

-- One high and two medium recommendations, of which two are of bonus options.
theorem score_from_report_alias :
    let report := review ⟨Catalog.environmentCatalog, .full, []⟩ aliasExtraction .python
    aliasExtraction.valid = true ∧
      (report.options.map fun option => option.findings.length).sum + report.missingRequired.length +
        report.notes.length < 288230376151711744 ∧
      report.score = some 85 ∧
      report.summary = "Configuration looks good with no errors or warnings (score 85/100)." := by
  intro report
  have few : (report.options.map fun option => option.findings.length).sum + report.missingRequired.length +
      report.notes.length < 288230376151711744 := by decide +kernel
  obtain ⟨scored, summarized⟩ := (score_from_report ⟨Catalog.environmentCatalog, .full, []⟩ aliasExtraction .python).1 rfl few
  refine ⟨rfl, few, scored.trans ?_, summarized.trans ?_⟩
  · decide +kernel
  · decide +kernel

end ReviewPolicy

end SnippetReview
