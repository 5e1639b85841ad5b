import SnippetReview.Proofs.Catalog.Resolution
import SnippetReview.Review.Analysis

set_option autoImplicit false

namespace SnippetReview

open Naming

namespace Settings

variable {key : String}

theorem mem_keys_put {s : Settings} (setting : Setting) : key ∈ (s.put setting).keys ↔ key ∈ s.keys ∨ key = setting.key := by
  rw [keys_put]
  split
  case isTrue known => exact (or_iff_left_of_imp fun same => same ▸ known).symm
  case isFalse => rw [List.mem_append, List.mem_singleton]

theorem folds_of_spelled (s : Settings) (ascii : IsAscii key)
    (spelled : (s.contains key = true ∨ s.contains (snake key) = true) ∨ s.contains (pascal key) = true) :
    ∃ other ∈ s.keys, fold other = fold key := by
  simp only [contains_iff] at spelled
  rcases spelled with (same | snaked) | capital
  · exact ⟨key, same, rfl⟩
  · exact ⟨snake key, snaked, fold_snake key⟩
  · exact ⟨pascal key, capital, fold_pascal ascii⟩

theorem has_logical_iff (s : Settings) (ascii : IsAscii key) :
    s.hasLogical key = true ↔ ∃ other ∈ s.keys, fold other = fold key := by
  unfold hasLogical
  simp only [Bool.or_eq_true, List.any_eq_true, beq_iff_eq]
  exact or_iff_right_of_imp (s.folds_of_spelled ascii)

end Settings

namespace ReviewPolicy

variable {r : ReviewPolicy} {entries : List Entry} {settings : Settings}

theorem is_present_iff (r : ReviewPolicy) (settings : Settings) {key : String} (ascii : IsAscii key) :
    r.isPresent settings key = true ↔
      (∃ other ∈ settings.keys, fold other = fold key) ∨
        ∃ other ∈ settings.keys, ∃ entry, r.catalog.resolve? other = some entry ∧ entry.key = key := by
  unfold isPresent
  simp only [Bool.or_eq_true, settings.has_logical_iff ascii, List.any_eq_true, beq_iff_eq, Option.map_eq_some_iff]

theorem entry_of_review (r : ReviewPolicy) (target : Host) (setting : Setting) :
    (r.reviewOption target setting).entry = r.catalog.resolve? setting.key := by
  unfold reviewOption
  cases found : r.catalog.resolve? setting.key <;> rfl

-- The keys of the settings are those of the options, one for one.
theorem exists_option_iff (target : Host) {p : Option Entry → Prop} :
    (∃ option ∈ settings.list.map (r.reviewOption target), p option.entry) ↔
      ∃ key ∈ settings.keys, p (r.catalog.resolve? key) := by
  unfold Settings.keys
  simp only [List.mem_map]
  constructor
  · rintro ⟨_, ⟨setting, member, rfl⟩, holds⟩
    exact ⟨setting.key, ⟨setting, member, rfl⟩, by rwa [entry_of_review] at holds⟩
  · rintro ⟨_, ⟨setting, member, rfl⟩, holds⟩
    exact ⟨_, ⟨setting, member, rfl⟩, by rwa [entry_of_review]⟩

theorem present_iff_resolved (target : Host) (made : Catalog.Made entries r.catalog) {entry : Entry}
    (member : entry ∈ entries) (ascii : IsAscii entry.key) :
    r.isPresent settings entry.key = true ↔
      ∃ option ∈ settings.list.map (r.reviewOption target), option.entry = some entry := by
  rw [exists_option_iff target (p := fun found => found = some entry), is_present_iff r settings ascii]
  constructor
  · rintro (⟨other, set, same⟩ | ⟨other, set, found, resolved, key⟩)
    · exact ⟨other, set, (Catalog.resolve_iff made).mpr ⟨member, entry.key, Catalog.key_mem_spellings entry, same.symm⟩⟩
    · have owner := (Catalog.means_of_resolve made resolved).1
      exact ⟨other, set, by rw [resolved, Catalog.entry_of_key made.keys_nodup owner member key]⟩
  · rintro ⟨other, set, resolved⟩
    exact .inr ⟨other, set, entry, resolved, rfl⟩

theorem present_iff_satisfied (target : Host) {key : String} (ascii : IsAscii key) :
    r.isPresent settings key = true ↔
      (∃ option ∈ settings.list.map (r.reviewOption target), ∃ entry, option.entry = some entry ∧ entry.key = key) ∨
        ∃ other ∈ settings.keys, fold other = fold key := by
  rw [exists_option_iff target (p := fun found => ∃ entry, found = some entry ∧ entry.key = key), is_present_iff r settings ascii]
  exact or_comm

theorem checklist_ascii : ∀ item ∈ checklist, ∀ key ∈ item.satisfiedBy, IsAscii key := by decide +kernel

theorem review_parts (r : ReviewPolicy) {e : Extraction} (valid : e.valid = true) (target : Host) :
    (r.review e target).options = e.settings.list.map (r.reviewOption target) ∧
      (r.review e target).missingRequired = r.missing target e.settings ∧
      (r.review e target).recommendations = r.recommendations target e.settings := by
  unfold review
  rw [valid]
  exact ⟨rfl, rfl, rfl⟩

/-- The required options that a review misses are those that no option of the review is resolved to, and
the items of the checklist that it recommends are those whose options are set in no spelling. -/
theorem review_presence {c : Catalog} (accepted : Catalog.ofEntries entries = .ok c)
    (ascii : ∀ entry ∈ entries, IsAscii entry.key) (registry : Registry) (rules : List ReviewRule) (e : Extraction)
    (valid : e.valid = true) (target : Host) :
    let policy : ReviewPolicy := ⟨c, registry, rules⟩
    let review := policy.review e target
    review.missingRequired =
        ((entries.filter (·.required)).filter fun entry => ∀ option ∈ review.options, option.entry ≠ some entry).map
          (fun entry => ⟨.missingRequired (policy.nativeKey target entry.key), none⟩) ∧
      review.recommendations =
        (checklist.filter fun item => ∀ key ∈ item.satisfiedBy,
            ¬ ((∃ option ∈ review.options, ∃ entry ∈ option.entry, entry.key = key) ∨
              ∃ other ∈ e.settings.keys, fold other = fold key)).map
          (fun item => item.recommend (policy.renderHost target)) := by
  intro policy review
  have made : Catalog.Made entries policy.catalog := Catalog.made_of_entries accepted
  obtain ⟨options, missingRequired, recommended⟩ := review_parts policy valid target
  constructor
  · rw [missingRequired, missing, Catalog.required, made.entries_eq]
    refine congrArg _ (List.filter_congr fun entry required => ?_)
    have member := (List.mem_filter.mp required).1
    rw [Bool.eq_iff_iff, Bool.not_eq_true', ← Bool.not_eq_true, decide_eq_true_iff, options,
      present_iff_resolved target made member (ascii entry member)]
    simp only [not_exists, not_and, ne_eq]
  · rw [recommended, recommendations]
    refine congrArg _ (List.filter_congr fun item member => ?_)
    rw [Bool.eq_iff_iff, Bool.not_eq_true', ← Bool.not_eq_true, decide_eq_true_iff, options, List.any_eq_true]
    simp only [not_exists, not_and]
    refine forall₂_congr fun key listed => not_congr ?_
    exact present_iff_satisfied target (checklist_ascii item member key listed)

def aliasExtraction : Extraction :=
  ⟨.python, true, ⟨[⟨"environment_name", .string "dev", "'dev'", .string, 1⟩]⟩, [], [], []⟩

theorem review_presence_alias :
    Catalog.ofEntries [Catalog.environmentEntry] = .ok Catalog.environmentCatalog ∧
      (∀ entry ∈ [Catalog.environmentEntry], IsAscii entry.key) ∧ aliasExtraction.valid = true ∧
      (review ⟨Catalog.environmentCatalog, .full, []⟩ aliasExtraction .python).missingRequired = [] ∧
      (review ⟨Catalog.environmentCatalog, .full, []⟩ aliasExtraction .python).recommendations.map (·.option) =
        ["release", "tracesSampleRate", "beforeSend", "ignoreErrors"] := by
  have ascii : ∀ entry ∈ [Catalog.environmentEntry], IsAscii entry.key := by decide
  obtain ⟨missed, recommended⟩ :=
    review_presence Catalog.environment_accepted ascii .full [] aliasExtraction rfl .python
  refine ⟨Catalog.environment_accepted, ascii, rfl, ?_, ?_⟩
  · rw [missed, List.map_eq_nil_iff]
    decide +kernel
  · rw [recommended, List.map_map]
    change List.map (fun item : ChecklistItem => item.option) _ = _
    decide +kernel

end ReviewPolicy

end SnippetReview
