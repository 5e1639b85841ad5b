import Mathlib.Data.List.Basic
import SnippetReview.Proofs.Review.Scoring

set_option autoImplicit false

namespace SnippetReview

theorem Settings.keys_subset_put (settings : Settings) (setting : Setting) :
    ∀ key ∈ settings.keys, key ∈ (settings.put setting).keys :=
  fun _ member => (mem_keys_put setting).mpr (.inl member)

def Extraction.set (e : Extraction) (setting : Setting) : Extraction := { e with settings := e.settings.put setting }

namespace ReviewPolicy

variable {r : ReviewPolicy} {s t : Settings}

theorem is_present_mono (subset : ∀ key ∈ s.keys, key ∈ t.keys) (key : String)
    (present : r.isPresent s key = true) : r.isPresent t key = true := by
  unfold isPresent Settings.hasLogical at present ⊢
  simp only [Bool.or_eq_true, List.any_eq_true, Settings.contains_iff] at present ⊢
  rcases present with ((((same | snaked) | capital) | ⟨other, set, folds⟩) | ⟨other, set, resolved⟩)
  · exact .inl (.inl (.inl (.inl (subset _ same))))
  · exact .inl (.inl (.inl (.inr (subset _ snaked))))
  · exact .inl (.inl (.inr (subset _ capital)))
  · exact .inl (.inr ⟨other, subset other set, folds⟩)
  · exact .inr ⟨other, subset other set, resolved⟩

theorem missing_sublist (r : ReviewPolicy) (target : Host) (subset : ∀ key ∈ s.keys, key ∈ t.keys) :
    (r.missing target t).Sublist (r.missing target s) := by
  apply List.Sublist.map
  apply List.monotone_filter_right
  intro entry absent
  rw [Bool.not_eq_true'] at absent ⊢
  exact Bool.eq_false_iff.mpr fun present => Bool.eq_false_iff.mp absent (is_present_mono subset entry.key present)

theorem recommendations_sublist (r : ReviewPolicy) (target : Host) (subset : ∀ key ∈ s.keys, key ∈ t.keys) :
    (r.recommendations target t).Sublist (r.recommendations target s) := by
  apply List.Sublist.map
  apply List.monotone_filter_right
  intro item unmet
  rw [Bool.not_eq_true', List.any_eq_false] at unmet ⊢
  exact fun key listed present => unmet key listed (is_present_mono subset key present)

theorem bonuses_le (r : ReviewPolicy) (subset : ∀ key ∈ s.keys, key ∈ t.keys) :
    (bonusOptions.filter (r.isPresent s)).length ≤ (bonusOptions.filter (r.isPresent t)).length := by
  apply List.Sublist.length_le
  exact List.monotone_filter_right _ fun key => is_present_mono subset key

theorem notes_of_review (r : ReviewPolicy) {e : Extraction} (valid : e.valid = true) (target : Host) :
    (r.review e target).notes = e.warnings.map fun notice => ⟨.extractionNote notice, none⟩ := by
  unfold review
  rw [valid]
  rfl

variable {e : Extraction} {setting : Setting}

theorem options_set (r : ReviewPolicy) (valid : e.valid = true) (target : Host) (fresh : setting.key ∉ e.settings.keys) :
    (r.review (e.set setting) target).options = (r.review e target).options ++ [r.reviewOption target setting] := by
  rw [(review_parts r valid target).1, (review_parts r (e := e.set setting) valid target).1, Extraction.set,
    Settings.list_put_fresh fresh, List.map_append]
  rfl

theorem missing_set (r : ReviewPolicy) (valid : e.valid = true) (target : Host) (setting : Setting) :
    (r.review (e.set setting) target).missingRequired.Sublist (r.review e target).missingRequired := by
  rw [(review_parts r valid target).2.1, (review_parts r (e := e.set setting) valid target).2.1]
  exact missing_sublist r target (e.settings.keys_subset_put setting)

theorem recommendations_set (r : ReviewPolicy) (valid : e.valid = true) (target : Host) (setting : Setting) :
    (r.review (e.set setting) target).recommendations.Sublist (r.review e target).recommendations := by
  rw [(review_parts r valid target).2.2, (review_parts r (e := e.set setting) valid target).2.2]
  exact recommendations_sublist r target (e.settings.keys_subset_put setting)

theorem count_set_le (r : ReviewPolicy) (valid : e.valid = true) (target : Host) (fresh : setting.key ∉ e.settings.keys)
    {severity : Severity} (unflagged : ∀ f ∈ (r.reviewOption target setting).findings, f.severity ≠ severity) :
    (r.review (e.set setting) target).count severity ≤ (r.review e target).count severity := by
  have none : ((r.reviewOption target setting).findings.countP fun f => f.severity = severity) = 0 := by
    rw [List.countP_eq_zero]
    exact fun f member same => unflagged f member (of_decide_eq_true same)
  rw [count_by_parts, count_by_parts, options_set r valid target fresh, notes_of_review r valid,
    notes_of_review r (e := e.set setting) valid, List.map_append, List.sum_append, List.map_singleton,
    List.sum_singleton, none]
  -- Only what is missing can change, and it gets less.
  apply Nat.add_le_add_right
  apply Nat.add_le_add_left
  exact (missing_set r valid target setting).countP_le

theorem priority_set_le (r : ReviewPolicy) (valid : e.valid = true) (target : Host) (setting : Setting) (priority : Priority) :
    (r.review (e.set setting) target).countPriority priority ≤ (r.review e target).countPriority priority :=
  ((recommendations_set r valid target setting).filter _).length_le

/-- Setting one more option leaves the review of the others as it is, adds no missing option and no
recommendation, and does not lower the score unless the option is flagged with an error or a warning. The
score is computed in words, which hold the penalty of more findings than fit in memory. -/
theorem review_set (r : ReviewPolicy) (e : Extraction) (valid : e.valid = true) (target : Host) (setting : Setting)
    (fresh : setting.key ∉ e.settings.keys) :
    let before := r.review e target
    let after := r.review (e.set setting) target
    let added := r.reviewOption target setting
    after.options = before.options ++ [added] ∧ after.missingRequired.Sublist before.missingRequired ∧
      after.recommendations.Sublist before.recommendations ∧
      ((∀ f ∈ added.findings, f.severity ≠ .error ∧ f.severity ≠ .warning) →
        before.findings.length < 288230376151711744 →
        ∃ old new, before.score = some old ∧ after.score = some new ∧ old ≤ new) := by
  intro before after added
  refine ⟨options_set r valid target fresh, missing_set r valid target setting,
    recommendations_set r valid target setting, ?_⟩
  intro unflagged few
  have total := count_severities_le before
  have errors : after.count .error ≤ before.count .error :=
    count_set_le r valid target fresh fun f member => (unflagged f member).1
  have warnings : after.count .warning ≤ before.count .warning :=
    count_set_le r valid target fresh fun f member => (unflagged f member).2
  have old := score_of_few r valid target (Nat.lt_of_le_of_lt total few)
  have new := score_of_few r (e := e.set setting) valid target
    (Nat.lt_of_le_of_lt (Nat.le_trans (Nat.add_le_add errors warnings) total) few)
  refine ⟨_, _, old, new, ?_⟩
  -- Fewer findings and recommendations cost less, and the options worth a bonus stay set.
  apply kept_le
  apply points_le errors warnings
  · exact priority_set_le r valid target setting .high
  · exact priority_set_le r valid target setting .medium
  · exact bonuses_le r (e.settings.keys_subset_put setting)

theorem review_set_alias :
    let policy : ReviewPolicy := ⟨Catalog.environmentCatalog, .full, []⟩
    let empty : Extraction := ⟨.python, true, {}, [], [], []⟩
    let setting : Setting := ⟨"environment_name", .string "dev", "'dev'", .string, 1⟩
    empty.valid = true ∧ setting.key ∉ empty.settings.keys ∧
      (∀ f ∈ (policy.reviewOption .python setting).findings, f.severity ≠ .error ∧ f.severity ≠ .warning) ∧
      (policy.review empty .python).findings.length < 288230376151711744 ∧
      ∃ old new, (policy.review empty .python).score = some old ∧
        (policy.review (empty.set setting) .python).score = some new ∧ old ≤ new := by
  intro policy empty setting
  have fresh : setting.key ∉ empty.settings.keys := by decide
  have unflagged : ∀ f ∈ (policy.reviewOption .python setting).findings, f.severity ≠ .error ∧ f.severity ≠ .warning := by
    decide +kernel
  have few : (policy.review empty .python).findings.length < 288230376151711744 := by decide +kernel
  exact ⟨rfl, fresh, unflagged, few, (review_set policy empty rfl .python setting fresh).2.2.2 unflagged few⟩

end ReviewPolicy

end SnippetReview
