import SnippetReview.Catalog.Standard
import SnippetReview.Host.Example
import SnippetReview.Proofs.Naming.Conventions
import SnippetReview.Proofs.Snippet.Binding

set_option autoImplicit false

namespace SnippetReview

open Text

theorem wordish_of_alphanum {c : Char} (alphanum : c.isAlphanum = true) : isWordish c = true := by
  rw [isWordish, alphanum, Bool.true_or]

theorem plain_of_camel_key {key : List Char} (camel : isCamelKey key = true) : isPlainKey key = true := by
  cases key with
  | nil => contradiction
  | cons c rest =>
    rw [isCamelKey, Bool.and_eq_true, List.all_eq_true] at camel
    rw [isPlainKey, Bool.and_eq_true, List.all_eq_true]
    refine ⟨?_, fun d member => wordish_of_alphanum (camel.2 d member)⟩
    unfold Char.isAlpha
    rw [camel.1, Bool.or_true]

namespace Naming

theorem snake_char_spec {c : Char} (alphanum : c.isAlphanum = true) :
    (snakeChar c).all isWordish = true ∧ (snakeChar c = [c] ∨ '_' ∈ snakeChar c) :=
  of_alphanum (p := fun c => (snakeChar c).all isWordish = true ∧ (snakeChar c = [c] ∨ '_' ∈ snakeChar c))
    (by decide +kernel) alphanum

theorem upper_case_spec {c : Char} (small : c.isLower = true) :
    c.toUpper.isUpper = true ∧ c.toUpper.toLower = c :=
  of_alphanum (p := fun c => c.isLower = true →
    c.toUpper.isUpper = true ∧ c.toUpper.toLower = c) (by decide +kernel)
    (alphanum_of_lower small) small

variable {key : List Char}

theorem snake_tail_spec {rest : List Char} (alphanum : ∀ c ∈ rest, c.isAlphanum = true) :
    (rest.flatMap snakeChar).all isWordish = true ∧
      (rest.flatMap snakeChar = rest ∨ '_' ∈ rest.flatMap snakeChar) := by
  induction rest with
  | nil => exact ⟨rfl, .inl rfl⟩
  | cons c rest ih =>
    obtain ⟨wordish, same⟩ := snake_char_spec (alphanum c List.mem_cons_self)
    obtain ⟨wordishRest, sameRest⟩ := ih fun d member => alphanum d (List.mem_cons_of_mem c member)
    rw [List.flatMap_cons, List.all_append, wordish, wordishRest]
    refine ⟨rfl, ?_⟩
    rcases same with same | marked
    · rcases sameRest with sameRest | marked
      · exact .inl (by rw [same, sameRest]; rfl)
      · exact .inr (List.mem_append_right _ marked)
    · exact .inr (List.mem_append_left _ marked)

theorem snake_chars_spec (camel : isCamelKey key = true) :
    isPlainKey (snakeChars key) = true ∧ (snakeChars key = key ∨ '_' ∈ snakeChars key) := by
  obtain ⟨c, rest, rfl, small, alphanum⟩ := camel_key_cases camel
  obtain ⟨wordish, same⟩ := snake_tail_spec alphanum
  have first : c.isAlpha = true := by
    unfold Char.isAlpha
    rw [small, Bool.or_true]
  have shape : snakeChars (c :: rest) = c :: rest.flatMap snakeChar := by simp [snakeChars, (small_spec small).1]
  rw [shape, isPlainKey, first, wordish]
  refine ⟨rfl, ?_⟩
  rcases same with same | marked
  · exact .inl (by rw [same])
  · exact .inr (List.mem_cons_of_mem c marked)

theorem pascal_chars_spec (camel : isCamelKey key = true) :
    ∃ d rest, upperFirst (canonicalChars key) = d :: rest ∧ d.isUpper = true ∧ d.toLower :: rest = key ∧
      isPlainKey (d :: rest) = true := by
  rw [canonical_camel_chars camel]
  have plain := wordish_of_plain_key (plain_of_camel_key camel)
  obtain ⟨c, rest, rfl, small, alphanum⟩ := camel_key_cases camel
  obtain ⟨capital, lower⟩ := upper_case_spec small
  refine ⟨c.toUpper, rest, ?_, capital, by rw [lower], ?_⟩
  · rw [upperFirst, (small_spec small).2.1, List.singleton_append]
  · rw [List.all_cons, Bool.and_eq_true] at plain
    rw [isPlainKey, plain.2, Bool.and_true]
    unfold Char.isAlpha
    rw [capital, Bool.true_or]

end Naming

namespace Catalog

theorem standard_keys_camel : ∀ entry ∈ standardEntries, isCamelKey entry.key.toList = true ∧
    Grammar.ruby.reserved.contains entry.key.toList = false ∧
    Grammar.elixir.reserved.contains entry.key.toList = false := by
  decide +kernel

end Catalog

theorem Grammar.native_key_cases (g : Grammar) (key : String) :
    (∃ p ∈ g.keyOverrides, g.nativeKey key = p.2) ∨ g.nativeKey key = g.naming.apply key := by
  unfold nativeKey
  cases found : g.keyOverrides.lookup key with
  | some native =>
    obtain ⟨before, after, split, _⟩ := List.lookup_eq_some_iff.mp found
    exact .inl ⟨(key, native), by rw [split]; exact List.mem_append_right _ List.mem_cons_self, rfl⟩
  | none => exact .inr rfl

structure Host.Spells (host : Host) (key : List Char) : Prop where
  plain : isPlainKey key = true
  unreserved : key ∉ host.grammar.reserved

namespace Host

theorem spells_of_unworded {host : Host} (none : host.grammar.blockWords = none) {key : List Char}
    (plain : isPlainKey key = true) : host.Spells key := by
  refine ⟨plain, ?_⟩
  unfold Grammar.reserved
  rw [none]
  exact List.not_mem_nil

theorem spells_snake {host : Host} (naming : host.grammar.naming = .snake)
    (unmarked : ∀ word ∈ host.grammar.reserved, '_' ∉ word) {key : String} (camel : isCamelKey key.toList = true)
    (free : host.grammar.reserved.contains key.toList = false) :
    host.Spells (host.grammar.naming.apply key).toList := by
  obtain ⟨plain, same⟩ := Naming.snake_chars_spec camel
  rw [naming, NamingConvention.apply, Naming.snake, String.toList_ofList]
  refine ⟨plain, fun member => ?_⟩
  rcases same with same | marked
  · rw [same, ← List.contains_iff_mem, free] at member
    contradiction
  · exact unmarked _ member marked

theorem spells_native (host : Host) {key : String} (known : key ∈ Catalog.standardEntries.map (·.key)) :
    host.Spells (host.grammar.nativeKey key).toList := by
  obtain ⟨entry, member, rfl⟩ := List.mem_map.mp known
  obtain ⟨camel, ruby, elixir⟩ := Catalog.standard_keys_camel entry member
  have own : ∀ p ∈ host.grammar.keyOverrides, isPlainKey p.2.toList = true ∧ p.2.toList ∉ host.grammar.reserved := by
    cases host <;> decide +kernel
  rcases host.grammar.native_key_cases entry.key with ⟨p, override, same⟩ | same
  · rw [same]
    exact ⟨(own p override).1, (own p override).2⟩
  · rw [same]
    cases host
    case ruby => exact spells_snake rfl (by decide +kernel) camel ruby
    case elixir => exact spells_snake rfl (by decide +kernel) camel elixir
    all_goals refine spells_of_unworded rfl ?_
    case python | php | rust =>
      change isPlainKey (Naming.snake entry.key).toList = true
      rw [Naming.snake, String.toList_ofList]
      exact (Naming.snake_chars_spec camel).1
    case go | dotnet =>
      change isPlainKey (Naming.pascal entry.key).toList = true
      obtain ⟨d, rest, shape, _, _, plain⟩ := Naming.pascal_chars_spec camel
      rw [Naming.pascal, String.toList_ofList, shape]
      exact plain
    all_goals exact plain_of_camel_key camel

theorem java_property {key : String} (known : key ∈ Catalog.standardEntries.map (·.key)) :
    let native := java.grammar.nativeKey key
    let property := (Naming.pascal native).toList
    property.all isWordish = true ∧ (∀ c ∈ property.head?, c.isUpper = true) ∧ property ≠ [] ∧
      Binding.propertyKey java.grammar.naming property = native := by
  obtain ⟨entry, member, rfl⟩ := List.mem_map.mp known
  have camel : isCamelKey (java.grammar.nativeKey entry.key).toList = true := by
    have own : ∀ p ∈ java.grammar.keyOverrides, isCamelKey p.2.toList = true := by decide +kernel
    rcases java.grammar.native_key_cases entry.key with ⟨p, override, same⟩ | same
    · rw [same]
      exact own p override
    · rw [same]
      exact (Catalog.standard_keys_camel entry member).1
  generalize java.grammar.nativeKey entry.key = native at camel
  obtain ⟨d, rest, shape, capital, lower, plain⟩ := Naming.pascal_chars_spec camel
  simp only [Naming.pascal, String.toList_ofList, shape]
  refine ⟨wordish_of_plain_key plain, ?_, List.cons_ne_nil _ _, ?_⟩
  · intro c head
    rw [List.head?_cons, Option.mem_some_iff] at head
    rwa [← head]
  · change String.ofList (d.toLower :: rest) = native
    rw [lower, String.ofList_toList]

end Host

end SnippetReview
