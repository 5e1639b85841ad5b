import SnippetReview.Proofs.Pattern.Anchored
import SnippetReview.Proofs.Pattern.Matching
import SnippetReview.Proofs.Report.Feeds
import SnippetReview.Proofs.Snippet.Overwriting
import SnippetReview.Proofs.Snippet.Provenance
import SnippetReview.Proofs.Text.LowerCase

set_option autoImplicit false

namespace SnippetReview

open Text

theorem feed_not_mem_dotted {inName : Bool} {s : List Char} (dotted : isDottedTail inName s = true) : '\n' ∉ s := by
  induction s generalizing inName with
  | nil => exact List.not_mem_nil
  | cons c rest ih =>
    have split : c ≠ '\n' ∧ ∃ next, isDottedTail next rest = true := by
      rw [isDottedTail] at dotted
      split at dotted
      next dot =>
        rw [Bool.and_eq_true] at dotted
        exact ⟨by rw [beq_iff_eq.mp dot]; decide, false, dotted.2⟩
      next =>
        split at dotted
        all_goals
          rw [Bool.and_eq_true] at dotted
          refine ⟨?_, true, dotted.2⟩
          rintro rfl
          exact absurd dotted.1 (by decide)
    obtain ⟨next, further⟩ := split.2
    rw [List.mem_cons, not_or]
    exact ⟨split.1.symm, ih further⟩

theorem feed_of_to_lower {c : Char} (same : c.toLower = '\n') : c = '\n' := by
  by_cases ascii : c.toNat < 128
  · exact of_ascii (p := fun c => c.toLower = '\n' → c = '\n') (by decide) ascii same
  · rwa [to_lower_high ascii] at same

namespace OneLine

theorem of_clean_key {written : List Char} {key : String} (clean : cleanKey? written = some key) : OneLine key := by
  -- How the quotes are told does not matter.
  obtain ⟨quoted, inner, form⟩ : ∃ (quoted : Bool) (inner : List Char), cleanKey? written =
      if quoted then if isQuotedKey inner then some (String.ofList inner) else none
      else if isKey (trim written) then some (String.ofList (trim written)) else none := ⟨_, _, rfl⟩
  rw [form] at clean
  cases quoted with
  | true =>
    rw [if_pos rfl, Option.ite_none_right_eq_some, Option.some.injEq] at clean
    obtain ⟨accepted, rfl⟩ := clean
    unfold isQuotedKey at accepted
    rw [Bool.and_eq_true, List.all_eq_true] at accepted
    exact of_chars.mpr fun feed => absurd (accepted.2 '\n' feed) (by decide)
  | false =>
    rw [if_neg Bool.false_ne_true, Option.ite_none_right_eq_some, Option.some.injEq] at clean
    obtain ⟨accepted, rfl⟩ := clean
    exact of_chars.mpr (feed_not_mem_dotted accepted)

theorem property_key (naming : NamingConvention) {property : List Char} (plain : '\n' ∉ property) :
    OneLine (Binding.propertyKey naming property) := by
  have lowered : ∀ c rest, property = c :: rest → OneLine (String.ofList (c.toLower :: rest)) := by
    intro c rest parts
    rw [parts, List.mem_cons, not_or] at plain
    rw [of_chars, List.mem_cons, not_or]
    exact ⟨fun same => plain.1 (feed_of_to_lower same.symm).symm, plain.2⟩
  unfold Binding.propertyKey
  split
  · exact of_chars.mpr plain
  · exact lowered _ _ rfl
  · decide

end OneLine

namespace Binding

variable {g : Grammar} {receiver : List Char} {item : Slice} {binding : Binding}

theorem key_of_token {token : List Char} (reads : ofToken? g item token = some binding) : OneLine binding.key := by
  simp only [ofToken?, Option.bind_eq_bind, Option.bind_eq_some_iff, Option.some.injEq] at reads
  obtain ⟨v, _, key, clean, rfl⟩ := reads
  exact .of_clean_key clean

theorem key_of_receiver (reads : ofReceiver? g receiver item = some binding) : OneLine binding.key := by
  simp only [ofReceiver?, Option.bind_eq_bind, Option.bind_eq_some_iff] at reads
  obtain ⟨rest, _, v, _, reads⟩ := reads
  split at reads
  next accepted =>
    rw [← Option.some.inj reads]
    exact OneLine.of_chars.mpr (feed_not_mem_dotted accepted)
  next => contradiction

theorem key_of_setter (reads : ofSetter? g receiver item = some binding) : OneLine binding.key := by
  simp only [ofSetter?, Option.bind_eq_bind, Option.bind_eq_some_iff] at reads
  obtain ⟨rest, _, property, named, reads⟩ := reads
  have plain : '\n' ∉ property := by
    unfold setterProperty? at named
    simp only [Option.ite_none_right_eq_some, Option.some.injEq] at named
    obtain ⟨_, _, rfl⟩ := named
    exact fun feed => absurd (List.mem_takeWhile_imp (List.drop_subset 3 _ feed)) (by decide)
  -- In parentheses or in braces, the value does not change the key.
  have same : binding.key = propertyKey g.naming property := by
    split at reads
    · simp only [Option.bind_eq_some_iff, Option.ite_none_right_eq_some, Option.some.injEq] at reads
      obtain ⟨_, _, _, rfl⟩ := reads
      rfl
    · simp only [Option.bind_eq_some_iff, Option.ite_none_right_eq_some, Option.some.injEq] at reads
      obtain ⟨_, _, _, rfl⟩ := reads
      rfl
    · contradiction
  rw [same]
  exact OneLine.property_key g.naming plain

theorem key_of_method (reads : ofMethod? item = some binding) : OneLine binding.key := by
  simp only [ofMethod?, Option.bind_eq_bind, Option.bind_eq_some_iff] at reads
  obtain ⟨found, first, name, grouped, reads⟩ := reads
  split at reads
  next => contradiction
  next =>
    rw [← Option.some.inj reads]
    rw [Pattern.find_of_anchored (by decide)] at first
    have plain : ∀ c ∈ name, c ∉ ['\n'] := @Pattern.group_avoids _ methodHead (by decide) [] _ _ first _ grouped
    exact OneLine.of_chars.mpr fun feed => plain '\n' feed List.mem_cons_self

theorem key_of_item (reads : ofItem? g receiver item = some binding) : OneLine binding.key := by
  obtain ⟨style, _, reads⟩ := List.exists_of_findSome?_eq_some reads
  cases style with
  | token signs => exact key_of_token reads
  | receiver => exact key_of_receiver reads
  | setter => exact key_of_setter reads
  | method => exact key_of_method reads

end Binding

namespace Extraction

theorem key_of_first {g : Grammar} {receiver : List Char} {item : Slice} {binding : Binding}
    (positional : ∀ key ∈ g.positionalKey, OneLine key) (reads : firstBinding? g receiver item = some binding) :
    OneLine binding.key := by
  rcases Option.or_eq_some_iff.mp reads with named | ⟨_, positioned⟩
  · exact Binding.key_of_item named
  · obtain ⟨key, known, rfl⟩ := Option.map_eq_some_iff.mp positioned
    exact positional key known

theorem key_of_bound {g : Grammar} {receiver : List Char} {items : List Slice} {bound : Slice × Binding}
    (positional : ∀ key ∈ g.positionalKey, OneLine key) (member : bound ∈ bindings g receiver items) :
    OneLine bound.2.key := by
  cases items with
  | nil => exact absurd member List.not_mem_nil
  | cons first rest =>
    rw [bindings, List.mem_append, Option.mem_toList, Option.map_eq_some_iff, List.mem_filterMap] at member
    rcases member with ⟨binding, reads, rfl⟩ | ⟨item, _, reads⟩
    · exact key_of_first positional reads
    · obtain ⟨binding, named, rfl⟩ := Option.map_eq_some_iff.mp reads
      exact Binding.key_of_item named

end Extraction

theorem Host.positional_one_line (host : Host) : ∀ key ∈ host.grammar.positionalKey, OneLine key := by
  cases host <;> decide

theorem Extraction.mem_notices {g : Grammar} {levels : Nat} {source : List Char} {earlier bound : List (Slice × Binding)}
    {notice : Notice} (member : notice ∈ noticesFrom g levels source earlier bound) :
    ∃ b ∈ bound, notice.problem = .tooDeep b.2.key levels ∨ ∃ line, notice.problem = .setAgain b.2.key line := by
  induction bound generalizing earlier with
  | nil => exact absurd member List.not_mem_nil
  | cons b rest ih =>
    rw [noticesFrom, noticesOf, List.mem_append, List.mem_append, List.mem_ite_nil_right, List.mem_singleton,
      Option.mem_toList, Option.map_eq_some_iff] at member
    rcases member with (⟨_, rfl⟩ | ⟨last, _, rfl⟩) | further
    · exact ⟨b, List.mem_cons_self, .inl rfl⟩
    · exact ⟨b, List.mem_cons_self, .inr ⟨_, rfl⟩⟩
    · obtain ⟨c, inside, either⟩ := ih further
      exact ⟨c, List.mem_cons_of_mem b inside, either⟩

theorem one_line_notice {n : Notice} (message : OneLine n.message) : OneLine n.toText := by
  unfold Notice.toText
  cases n.position with
  | none => exact message
  | some position => simp +decide [message, OneLine.position]

section

variable {registry : Registry} {limits : Limits} {host : Host} {source : List Char}
  (valid : (extract registry limits host source).valid = true)

include valid

theorem one_line_assigned : ∀ bound ∈ Extraction.assigned host source, OneLine bound.2.key := by
  intro bound member
  obtain ⟨_, _, block, located⟩ := located_of_valid valid
  rw [Extraction.assigned, located] at member
  exact Extraction.key_of_bound host.positional_one_line member

theorem one_line_keys : ∀ setting ∈ (extract registry limits host source).settings.list, OneLine setting.key := by
  intro setting member
  rw [Extraction.settings_of_valid valid] at member
  obtain ⟨bound, inside, rfl⟩ := List.mem_map.mp (Extraction.mem_last_settings member)
  exact one_line_assigned valid bound inside

theorem one_line_warnings : ∀ notice ∈ (extract registry limits host source).warnings, OneLine notice.toText := by
  intro notice member
  rw [Extraction.warnings_of_valid valid] at member
  obtain ⟨bound, inside, either⟩ := Extraction.mem_notices member
  have key := one_line_assigned valid bound inside
  apply one_line_notice
  unfold Notice.message Problem.message
  rcases either with deep | ⟨line, again⟩
  · rw [deep]
    simp +decide [key, OneLine.repr]
  · rw [again]
    simp +decide [key, OneLine.repr]

end

end SnippetReview
