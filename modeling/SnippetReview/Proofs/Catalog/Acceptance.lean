import Mathlib.Data.List.Pairwise
import SnippetReview.Catalog.Standard
import SnippetReview.Proofs.Catalog.Resolution

set_option autoImplicit false

namespace SnippetReview.Catalog

open Naming

-- Spellings of two entries never fold alike, and the canonical forms of an entry's aliases differ from each
-- other and from its key.
structure Unambiguous (entries : List Entry) : Prop where
  apart : entries.Pairwise fun a b => ∀ s ∈ a.spellings, ∀ t ∈ b.spellings, fold s ≠ fold t
  aliases_nodup : ∀ entry ∈ entries, (entry.aliases.map canonical).Nodup
  alias_ne_key : ∀ entry ∈ entries, ∀ spelling ∈ entry.aliases, canonical spelling ≠ entry.key

section

variable {entries : List Entry} {done : List (Entry × String)} {table : List (String × Entry)} {entry : Entry}
  {spelling : String}

theorem entry_of_none_iff {key : String} : entryOf? entries key = none ↔ ∀ other ∈ entries, other.key ≠ key := by
  unfold entryOf?
  simp only [List.find?_eq_none, beq_iff_eq, ne_eq]

theorem add_alias_accepts_iff (faithful : Faithful canonical done table) :
    (∃ after, addAlias entries entry table spelling = .ok after) ↔
      (∀ other ∈ entries, other.key ≠ canonical spelling) ∧
        ∀ earlier ∈ done, canonical earlier.2 ≠ canonical spelling := by
  rw [← entry_of_none_iff, ← faithful.lookup_none_iff, ← Option.or_eq_none_iff]
  unfold addAlias
  dsimp only
  cases (entryOf? entries (canonical spelling)).or (table.lookup (canonical spelling)) with
  | none => exact ⟨fun _ => rfl, fun _ => ⟨_, rfl⟩⟩
  | some existing => exact ⟨fun ⟨_, entered⟩ => (nomatch entered), fun absent => (nomatch absent)⟩

theorem add_folded_accepts_iff (faithful : Faithful fold done table) :
    (∃ after, addFolded entry table spelling = .ok after) ↔
      ∀ earlier ∈ done, fold earlier.2 = fold spelling → earlier.1.key = entry.key := by
  unfold addFolded
  dsimp only
  cases here : table.lookup (fold spelling) with
  | none =>
    have fresh := faithful.lookup_none_iff.mp here
    exact ⟨fun _ earlier member same => absurd same (fresh earlier member), fun _ => ⟨_, rfl⟩⟩
  | some existing =>
    dsimp only
    by_cases own : existing.key = entry.key
    · rw [if_pos (beq_iff_eq.mpr own)]
      refine ⟨fun _ earlier member same => ?_, fun _ => ⟨_, rfl⟩⟩
      -- The table leads from the earlier spelling to an entry with the key of the earlier one.
      obtain ⟨found, leads, key⟩ := faithful.complete earlier.1 earlier.2 member
      rw [same, here] at leads
      cases leads
      rw [← key, own]
    · rw [if_neg fun same => own (beq_iff_eq.mp same)]
      refine ⟨fun ⟨_, entered⟩ => (nomatch entered), fun all => absurd ?_ own⟩
      obtain ⟨written, member, same⟩ := faithful.sound _ existing here
      exact all (existing, written) member same

theorem pairwise_spelled {names : Entry → List String} {r : Entry × String → Entry × String → Prop} :
    (spelled names entries).Pairwise r ↔
      (∀ entry ∈ entries, (names entry).Pairwise fun s t => r (entry, s) (entry, t)) ∧
        entries.Pairwise fun a b => ∀ s ∈ names a, ∀ t ∈ names b, r (a, s) (b, t) := by
  rw [spelled, List.pairwise_flatMap]
  simp only [List.pairwise_map, List.forall_mem_map]

theorem alias_table_accepts_iff :
    (∃ table, aliasTable entries = .ok table) ↔
      (∀ entry ∈ entries, ∀ s ∈ entry.aliases, ∀ other ∈ entries, other.key ≠ canonical s) ∧
        (∀ entry ∈ entries, (entry.aliases.map canonical).Nodup) ∧
          entries.Pairwise fun a b => ∀ s ∈ a.aliases, ∀ t ∈ b.aliases, canonical s ≠ canonical t := by
  rw [aliasTable, fill_eq_run (·.aliases)]
  rw [run_accepts_iff (p := Faithful canonical) add_alias_keeps add_alias_accepts_iff [] (Faithful.empty canonical)]
  rw [pairwise_spelled, and_comm]
  refine and_congr ?_ (and_congr_left' ?_)
  · simp only [Prod.forall, mem_spelled, List.not_mem_nil, false_implies, implies_true, and_true, and_imp]
    exact forall_congr' fun entry => forall_comm
  · exact forall₂_congr fun entry _ => List.pairwise_map.symm

theorem folded_table_accepts_iff :
    (∃ table, foldedTable entries = .ok table) ↔
      entries.Pairwise fun a b => ∀ s ∈ a.spellings, ∀ t ∈ b.spellings, fold s = fold t → a.key = b.key := by
  rw [foldedTable, fill_eq_run (·.spellings)]
  rw [run_accepts_iff (p := Faithful fold) (q := fun _ => True)
    (r := fun earlier pair => fold earlier.2 = fold pair.2 → earlier.1.key = pair.1.key) add_folded_keeps
    (fun faithful => (add_folded_accepts_iff faithful).trans (iff_of_eq (true_and _)).symm) [] (Faithful.empty fold)]
  rw [pairwise_spelled]
  constructor
  · exact fun accepted => accepted.1.2
  · intro apart
    refine ⟨⟨fun entry _ => ?_, apart⟩, fun _ _ => ⟨trivial, fun _ none => absurd none List.not_mem_nil⟩⟩
    exact List.pairwise_of_forall fun _ _ _ => rfl

theorem accepts_iff_tables :
    (∃ c, ofEntries entries = .ok c) ↔ (entries.map (·.key)).Nodup ∧ (∃ table, aliasTable entries = .ok table) ∧
      ∃ table, foldedTable entries = .ok table := by
  rw [← keys_unrepeated_iff]
  unfold ofEntries
  cases repeatedKey? [] entries with
  | some key => exact ⟨fun ⟨_, made⟩ => (nomatch made), fun tables => (nomatch tables.1)⟩
  | none =>
    cases aliasTable entries with
    | error reason => exact ⟨fun ⟨_, made⟩ => (nomatch made), fun ⟨_, ⟨_, made⟩, _⟩ => (nomatch made)⟩
    | ok aliases =>
      cases foldedTable entries with
      | error reason => exact ⟨fun ⟨_, made⟩ => (nomatch made), fun ⟨_, _, ⟨_, made⟩⟩ => (nomatch made)⟩
      | ok folded => exact ⟨fun _ => ⟨rfl, ⟨aliases, rfl⟩, ⟨folded, rfl⟩⟩, fun _ => ⟨_, rfl⟩⟩

theorem Unambiguous.keys_nodup (apart : Unambiguous entries) : (entries.map (·.key)).Nodup := by
  refine List.pairwise_map.mpr (apart.apart.imp fun {a b} differ same => ?_)
  exact differ a.key (key_mem_spellings a) b.key (key_mem_spellings b) (congrArg fold same)

theorem Unambiguous.fold_ne (apart : Unambiguous entries) {a b : Entry} (left : a ∈ entries) (right : b ∈ entries)
    (different : a ≠ b) {s t : String} (spelledLeft : s ∈ a.spellings) (spelledRight : t ∈ b.spellings) : fold s ≠ fold t := by
  -- The entries are compared as they stand in the list, and apart is apart either way.
  have symmetric : Std.Symm fun a b : Entry => ∀ s ∈ a.spellings, ∀ t ∈ b.spellings, fold s ≠ fold t :=
    ⟨fun _ _ differ s left t right => (differ t right s left).symm⟩
  exact apart.apart.forall left right different s spelledLeft t spelledRight

theorem accepts_iff : (∃ c, ofEntries entries = .ok c) ↔ Unambiguous entries := by
  rw [accepts_iff_tables, alias_table_accepts_iff, folded_table_accepts_iff]
  constructor
  · rintro ⟨nodup, ⟨keyless, aliases, _⟩, folded⟩
    refine ⟨?_, aliases, fun entry member s aliased same => keyless entry member s aliased entry member same.symm⟩
    -- The folded table lets one entry fold as another does if their keys agree, which they never do.
    have keys : entries.Pairwise fun a b => a.key ≠ b.key := List.pairwise_map.mp nodup
    exact keys.imp₂ (fun a b differ alike s left t right same => differ (alike s left t right same)) folded
  · intro apart
    refine ⟨apart.keys_nodup, ⟨?_, apart.aliases_nodup, ?_⟩, ?_⟩
    · -- An entry whose key is the canonical form of an alias has a spelling that folds as the alias does.
      intro entry member s aliased other present same
      by_cases own : entry = other
      · exact apart.alias_ne_key entry member s aliased (by rw [← same, own])
      · refine apart.fold_ne member present own (List.mem_cons_of_mem _ aliased) (key_mem_spellings other) ?_
        rw [same, fold_canonical]
    · refine apart.apart.imp fun differ s left t right same => ?_
      exact differ s (List.mem_cons_of_mem _ left) t (List.mem_cons_of_mem _ right) (fold_of_canonical_eq same)
    · exact apart.apart.imp fun differ s left t right same => absurd same (differ s left t right)

def Collides (reason : CatalogError) : Prop := ∃ spelling existing, reason = .aliasCollision spelling existing

theorem add_alias_error {reason : CatalogError} (failed : addAlias entries entry table spelling = .error reason) :
    Collides reason := by
  unfold addAlias at failed
  dsimp only at failed
  split at failed
  · cases failed
    exact ⟨_, _, rfl⟩
  · cases failed

theorem add_folded_error {reason : CatalogError} (failed : addFolded entry table spelling = .error reason) :
    Collides reason := by
  unfold addFolded at failed
  dsimp only at failed
  split at failed
  · split at failed
    · cases failed
    · cases failed
      exact ⟨_, _, rfl⟩
  · cases failed

theorem alias_table_error {reason : CatalogError} (failed : aliasTable entries = .error reason) : Collides reason := by
  rw [aliasTable, fill_eq_run (·.aliases)] at failed
  obtain ⟨_, _, stopped⟩ := run_error failed
  exact add_alias_error stopped

theorem folded_table_error {reason : CatalogError} (failed : foldedTable entries = .error reason) : Collides reason := by
  rw [foldedTable, fill_eq_run (·.spellings)] at failed
  obtain ⟨_, _, stopped⟩ := run_error failed
  exact add_folded_error stopped

theorem of_entries_error (nodup : (entries.map (·.key)).Nodup) {reason : CatalogError}
    (failed : ofEntries entries = .error reason) : Collides reason := by
  unfold ofEntries at failed
  rw [keys_unrepeated_iff.mpr nodup] at failed
  cases aliased : aliasTable entries with
  | error stopped =>
    rw [aliased] at failed
    cases failed
    exact alias_table_error aliased
  | ok aliases =>
    cases filled : foldedTable entries with
    | error stopped =>
      rw [aliased, filled] at failed
      cases failed
      exact folded_table_error filled
    | ok folded =>
      rw [aliased, filled] at failed
      cases failed

theorem duplicate_iff : (∃ key, ofEntries entries = .error (.duplicateKey key)) ↔ ¬ (entries.map (·.key)).Nodup := by
  constructor
  · rintro ⟨key, failed⟩ nodup
    obtain ⟨spelling, existing, same⟩ := of_entries_error nodup failed
    cases same
  · intro repeated
    unfold ofEntries
    cases found : repeatedKey? [] entries with
    | some key => exact ⟨key, rfl⟩
    | none => exact absurd (keys_unrepeated_iff.mp found) repeated

theorem Unambiguous.perm {others : List Entry} (reordered : entries.Perm others) (apart : Unambiguous entries) :
    Unambiguous others := by
  refine ⟨?_, fun entry member => ?_, fun entry member => ?_⟩
  · refine (reordered.pairwise_iff fun differ s left t right => ?_).mp apart.apart
    exact (differ t right s left).symm
  · exact apart.aliases_nodup entry (reordered.mem_iff.mpr member)
  · exact apart.alias_ne_key entry (reordered.mem_iff.mpr member)

end

theorem standard_accepted : ∃ catalog, standard = .ok catalog := by
  have accepted : standard.toOption.isSome = true := by decide +kernel
  generalize standard = made at accepted ⊢
  cases made with
  | ok catalog => exact ⟨catalog, rfl⟩
  | error error => contradiction

/-- Entries make a catalog if and only if their spellings tell them apart, and they are turned down for a
repeated key if and only if two of them have one key. Neither depends on their order. -/
theorem accepts_unambiguous (entries : List Entry) :
    ((∃ c, ofEntries entries = .ok c) ↔ Unambiguous entries) ∧
    ((∃ key, ofEntries entries = .error (.duplicateKey key)) ↔ ¬ (entries.map (·.key)).Nodup) ∧
    ∀ others, entries.Perm others →
      ((∃ c, ofEntries entries = .ok c) ↔ ∃ c, ofEntries others = .ok c) ∧
      ((∃ key, ofEntries entries = .error (.duplicateKey key)) ↔ ∃ key, ofEntries others = .error (.duplicateKey key)) := by
  refine ⟨accepts_iff, duplicate_iff, fun others reordered => ⟨?_, ?_⟩⟩
  · rw [accepts_iff, accepts_iff]
    exact ⟨Unambiguous.perm reordered, Unambiguous.perm reordered.symm⟩
  · rw [duplicate_iff, duplicate_iff, (reordered.map _).nodup_iff]

def releaseEntry : Entry :=
  { key := "release", displayName := "Release", category := .core, type := .string, description := ""
    aliases := ["environment"] }

theorem accepts_unambiguous_collision :
    [environmentEntry, releaseEntry].Perm [releaseEntry, environmentEntry] ∧
      (¬ ∃ c, ofEntries [environmentEntry, releaseEntry] = .ok c) ∧
      ¬ ∃ c, ofEntries [releaseEntry, environmentEntry] = .ok c := by
  have reordered : [environmentEntry, releaseEntry].Perm [releaseEntry, environmentEntry] := .swap _ _ []
  obtain ⟨accepts, _, orders⟩ := accepts_unambiguous [environmentEntry, releaseEntry]
  have ambiguous : ¬ Unambiguous [environmentEntry, releaseEntry] := by
    intro unambiguous
    have differ := List.rel_of_pairwise_cons unambiguous.apart List.mem_cons_self
    exact differ "environment" List.mem_cons_self "environment" (by decide) rfl
  refine ⟨reordered, fun made => ambiguous (accepts.mp made), fun made => ?_⟩
  exact ambiguous (accepts.mp ((orders _ reordered).1.mpr made))

end SnippetReview.Catalog
