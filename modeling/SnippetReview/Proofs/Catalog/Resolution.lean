import SnippetReview.Proofs.Catalog.Tables
import SnippetReview.Proofs.Naming.Folding

set_option autoImplicit false

namespace SnippetReview.Catalog

open Naming

section

variable {entries : List Entry} {c : Catalog}

theorem entry_of_key {entries : List Entry} (nodup : (entries.map (·.key)).Nodup) {a b : Entry} (left : a ∈ entries)
    (right : b ∈ entries) (same : a.key = b.key) : a = b := by
  induction entries with
  | nil => cases left
  | cons entry rest ih =>
    obtain ⟨fresh, nodup⟩ := List.nodup_cons.mp nodup
    rcases List.mem_cons.mp left with rfl | leftLater <;> rcases List.mem_cons.mp right with rfl | rightLater
    · rfl
    · exact absurd (List.mem_map.mpr ⟨b, rightLater, same.symm⟩) fresh
    · exact absurd (List.mem_map.mpr ⟨a, leftLater, same⟩) fresh
    · exact ih nodup leftLater rightLater

theorem get_some (made : Made entries c) {key : String} {entry : Entry} (found : c.get? key = some entry) :
    entry ∈ entries ∧ entry.key = key := by
  unfold get? entryOf? at found
  rw [made.entries_eq] at found
  exact ⟨List.mem_of_find?_eq_some found, beq_iff_eq.mp (List.find?_some (p := fun entry : Entry => entry.key == key) found)⟩

theorem key_mem_spellings (entry : Entry) : entry.key ∈ entry.spellings := List.mem_cons_self

def Means (entries : List Entry) (key : String) (entry : Entry) : Prop :=
  entry ∈ entries ∧ ∃ spelling ∈ entry.spellings, fold spelling = fold key

theorem means_of_get (made : Made entries c) {key other : String} {entry : Entry} (same : fold other = fold key)
    (found : c.get? other = some entry) : Means entries key entry := by
  obtain ⟨member, is⟩ := get_some made found
  exact ⟨member, entry.key, key_mem_spellings entry, by rw [is, same]⟩

theorem means_of_alias (made : Made entries c) {key : String} {entry : Entry}
    (found : c.aliases.lookup (canonical key) = some entry) : Means entries key entry := by
  obtain ⟨spelling, listed, same⟩ := made.aliases_sound _ _ found
  obtain ⟨member, aliased⟩ := mem_spelled.mp listed
  exact ⟨member, spelling, List.mem_cons_of_mem _ aliased, fold_of_canonical_eq same⟩

theorem means_of_folded (made : Made entries c) {key : String} {entry : Entry}
    (found : c.folded.lookup (fold key) = some entry) : Means entries key entry := by
  obtain ⟨spelling, listed, same⟩ := made.folded_sound _ _ found
  obtain ⟨member, spelled⟩ := mem_spelled.mp listed
  exact ⟨member, spelling, spelled, same⟩

theorem folded_of_means (made : Made entries c) {key : String} {entry : Entry} (means : Means entries key entry) :
    c.folded.lookup (fold key) = some entry := by
  obtain ⟨member, spelling, spelled, same⟩ := means
  obtain ⟨found, here, is⟩ := made.folded_complete entry spelling (mem_spelled.mpr ⟨member, spelled⟩)
  rw [same] at here
  have owner := (means_of_folded made here).1
  rw [here, entry_of_key made.keys_nodup owner member is]

theorem means_unique (made : Made entries c) {key : String} {a b : Entry} (left : Means entries key a)
    (right : Means entries key b) : a = b := by
  have here := folded_of_means made left
  rw [folded_of_means made right] at here
  exact (Option.some.inj here).symm

theorem resolve_cases {key : String} {entry : Entry} (found : c.resolve? key = some entry) :
    c.get? key = some entry ∨ c.get? (canonical key) = some entry ∨ c.aliases.lookup (canonical key) = some entry ∨
      c.folded.lookup (fold key) = some entry := by
  unfold resolve? at found
  simp only [Option.or_eq_some_iff] at found
  rcases found with straight | ⟨_, camel | ⟨_, aliased | ⟨_, folded⟩⟩⟩
  · exact .inl straight
  · exact .inr (.inl camel)
  · exact .inr (.inr (.inl aliased))
  · exact .inr (.inr (.inr folded))

theorem means_of_resolve (made : Made entries c) {key : String} {entry : Entry} (found : c.resolve? key = some entry) :
    Means entries key entry := by
  rcases resolve_cases found with straight | camel | aliased | folded
  · exact means_of_get made rfl straight
  · exact means_of_get made (fold_canonical key) camel
  · exact means_of_alias made aliased
  · exact means_of_folded made folded

theorem resolve_eq_lookup (made : Made entries c) (key : String) : c.resolve? key = c.folded.lookup (fold key) := by
  cases found : c.resolve? key with
  | some entry => rw [folded_of_means made (means_of_resolve made found)]
  | none =>
    unfold resolve? at found
    simp only [Option.or_eq_none_iff] at found
    exact found.2.2.2.symm

theorem resolve_iff (made : Made entries c) {key : String} {entry : Entry} :
    c.resolve? key = some entry ↔ Means entries key entry := by
  rw [resolve_eq_lookup made]
  exact ⟨means_of_folded made, folded_of_means made⟩

/-- The four steps of resolving a key are one lookup of its folded form. They lead to the one entry with
a spelling that folds as the key does, and an ASCII key can be spelled by any convention. -/
theorem resolve_is_folded_lookup (accepted : ofEntries entries = .ok c) :
    (∀ key, c.resolve? key = c.folded.lookup (fold key)) ∧
    (∀ key entry, c.resolve? key = some entry ↔
      entry ∈ entries ∧ ∃ spelling ∈ entry.spellings, fold spelling = fold key) ∧
    (∀ key, ∀ a ∈ entries, ∀ b ∈ entries, (∃ spelling ∈ a.spellings, fold spelling = fold key) →
      (∃ spelling ∈ b.spellings, fold spelling = fold key) → a = b) ∧
    (∀ key entry, c.get? key = some entry ∨ c.get? (canonical key) = some entry ∨
      c.aliases.lookup (canonical key) = some entry → c.folded.lookup (fold key) = some entry) ∧
    (∀ entry ∈ entries, IsAscii entry.key → ∀ convention : NamingConvention,
      c.resolve? (convention.apply entry.key) = some entry) := by
  have made := made_of_entries accepted
  refine ⟨resolve_eq_lookup made, fun key entry => resolve_iff made, ?_, ?_, ?_⟩
  · intro key a memberA b memberB left right
    exact means_unique made ⟨memberA, left⟩ ⟨memberB, right⟩
  · intro key entry found
    rcases found with straight | camel | aliased
    · exact folded_of_means made (means_of_get made rfl straight)
    · exact folded_of_means made (means_of_get made (fold_canonical key) camel)
    · exact folded_of_means made (means_of_alias made aliased)
  · intro entry member ascii convention
    exact (resolve_iff made).mpr
      ⟨member, entry.key, key_mem_spellings entry, (fold_apply convention ascii).symm⟩

end

def environmentEntry : Entry :=
  { key := "environment", displayName := "Environment", category := .core, type := .string, description := ""
    required := true
    aliases := ["environment_name"] }

def environmentCatalog : Catalog :=
  ⟨[environmentEntry], [("environmentName", environmentEntry)],
    [("environmentname", environmentEntry), ("environment", environmentEntry)]⟩

theorem environment_accepted : ofEntries [environmentEntry] = .ok environmentCatalog := by rfl

theorem resolve_is_folded_lookup_environment :
    ofEntries [environmentEntry] = .ok environmentCatalog ∧
      environmentCatalog.resolve? "ENVIRONMENT_Name" = some environmentEntry := by
  have resolves := (resolve_is_folded_lookup environment_accepted).2.1 "ENVIRONMENT_Name" environmentEntry
  refine ⟨environment_accepted, resolves.mpr ⟨List.mem_cons_self, "environment_name", ?_, ?_⟩⟩
  · decide
  · decide +kernel

end SnippetReview.Catalog
