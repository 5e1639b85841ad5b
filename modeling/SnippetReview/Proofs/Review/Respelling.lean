import SnippetReview.Proofs.Review.Presence

set_option autoImplicit false

namespace SnippetReview.Settings

open Naming

-- Sets an option under another key instead of its own.
def rename (s : Settings) (old new : String) : Settings :=
  match s.get? old with
  | some setting => Settings.put ⟨s.list.filter fun other => other.key != old⟩ { setting with key := new }
  | none => s

section

variable {s t : Settings} {old new key : String}

theorem rename_absent (absent : old ∉ s.keys) : s.rename old new = s := by
  rw [rename, get?_eq_none_iff.mpr absent]

theorem mem_keys_rename (present : old ∈ s.keys) :
    key ∈ (s.rename old new).keys ↔ (key ∈ s.keys ∧ key ≠ old) ∨ key = new := by
  have found : s.get? old ≠ none := fun absent => get?_eq_none_iff.mp absent present
  obtain ⟨setting, here⟩ := Option.ne_none_iff_exists'.mp found
  rw [rename, here]
  dsimp only
  rw [mem_keys_put]
  refine or_congr_left ?_
  simp only [keys, List.mem_map, List.mem_filter, bne_iff_ne]
  constructor
  · rintro ⟨other, ⟨member, different⟩, rfl⟩
    exact ⟨⟨other, member, rfl⟩, different⟩
  · rintro ⟨⟨other, member, rfl⟩, different⟩
    exact ⟨other, ⟨member, different⟩, rfl⟩

theorem folds_rename (same : fold new = fold old) (folded : String) :
    (∃ other ∈ (s.rename old new).keys, fold other = folded) ↔ ∃ other ∈ s.keys, fold other = folded := by
  by_cases present : old ∈ s.keys
  · constructor
    · rintro ⟨other, member, rfl⟩
      rcases (mem_keys_rename present).mp member with ⟨kept, _⟩ | rfl
      · exact ⟨other, kept, rfl⟩
      · exact ⟨old, present, same.symm⟩
    · rintro ⟨other, member, rfl⟩
      by_cases renamed : other = old
      · exact ⟨new, (mem_keys_rename present).mpr (.inr rfl), by rw [same, renamed]⟩
      · exact ⟨other, (mem_keys_rename present).mpr (.inl ⟨member, renamed⟩), rfl⟩
  · rw [rename_absent present]

theorem has_logical_congr (same : ∀ folded, (∃ other ∈ s.keys, fold other = folded) ↔ ∃ other ∈ t.keys, fold other = folded)
    (ascii : IsAscii key) : s.hasLogical key = t.hasLogical key := by
  rw [Bool.eq_iff_iff, has_logical_iff s ascii, has_logical_iff t ascii]
  exact same (fold key)

end

/-- An option with an ASCII key is set if and only if a key folds as its own. So no exact spelling is
found that the folded scan would not find, and a key can be replaced by another spelling of it. Beyond
ASCII this fails: the Pascal case of `ßl` is `SSl`, which folds otherwise. -/
theorem has_logical_spelling_blind (s : Settings) {key : String} (ascii : IsAscii key) :
    (s.hasLogical key = true ↔ ∃ other ∈ s.keys, fold other = fold key) ∧
    (s.contains key = true ∨ s.contains (snake key) = true ∨ s.contains (pascal key) = true →
      ∃ other ∈ s.keys, fold other = fold key) ∧
    ∀ old new, fold new = fold old → (s.rename old new).hasLogical key = s.hasLogical key := by
  refine ⟨has_logical_iff s ascii, fun spelled => ?_, fun old new same => has_logical_congr (folds_rename same) ascii⟩
  exact s.folds_of_spelled ascii (or_assoc.mpr spelled)

def piiSettings : Settings := ⟨[⟨"send_default_pii", .boolean true, "True", .boolean, 1⟩]⟩

theorem has_logical_spelling_blind_acronym :
    IsAscii "sendDefaultPii" ∧ fold "SendDefaultPII" = fold "send_default_pii" ∧
      piiSettings.hasLogical "sendDefaultPii" = true ∧
      (piiSettings.rename "send_default_pii" "SendDefaultPII").hasLogical "sendDefaultPii" = true := by
  have ascii : IsAscii "sendDefaultPii" := by decide
  have same : fold "SendDefaultPII" = fold "send_default_pii" := by decide +kernel
  obtain ⟨iff, _, renamed⟩ := has_logical_spelling_blind piiSettings ascii
  have set : piiSettings.hasLogical "sendDefaultPii" = true :=
    iff.mpr ⟨"send_default_pii", List.mem_cons_self, by decide +kernel⟩
  exact ⟨ascii, same, set, by rw [renamed _ _ same, set]⟩

end SnippetReview.Settings
